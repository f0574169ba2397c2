import TailscaleRs.Control.Node
import TailscaleRs.Lib.KeyedMap

namespace TailscaleRs.Control

open Net (IpAddr)

def wildcardUser : String := "*"
def identityMap : String := "="

structure SshPrincipal where
  node : String
  nodeIp : String
  userLogin : String
  any : Bool

structure SshRecorderFailureAction where
  rejectSessionWithMessage : String
  terminateSessionWithMessage : String
  notifyUrl : String

structure SshAction where
  message : String
  reject : Bool
  accept : Bool
  sessionDurationNanos : Option Int
  allowAgentForwarding : Bool
  allowLocalPortForwarding : Bool
  allowRemotePortForwarding : Bool
  recorders : List SocketAddr
  onRecordingFailure : Option SshRecorderFailureAction
  holdAndDelegate : String

structure SshRule where
  ruleExpires : Option DateTime
  principals : List SshPrincipal
  sshUsers : KeyedMap String String
  action : Option SshAction
  acceptEnv : List String

structure SshPolicy where
  rules : List SshRule

structure SshConnIdentity where
  stableId : String
  srcIp : IpAddr
  userLogin : Option String

structure SshAccept where
  localUser : String
  acceptEnv : List String
  sessionDurationNanos : Option Int
  allowAgentForwarding : Bool
  allowLocalPortForwarding : Bool
  allowRemotePortForwarding : Bool
  recorders : List SocketAddr
  onRecordingFailure : Option SshRecorderFailureAction
  holdAndDelegate : String
  recordingRefusalMessage : String

inductive SshDenyReason
  | explicitReject (message : String)
  | noRuleMatched
  | noUserMapping

inductive SshDecision
  | accept (details : SshAccept)
  | deny (reason : SshDenyReason)

inductive RuleSkip
  | noMatch
  | userMatch

def mapLocalUser (sshUsers : KeyedMap String String) (requestedUser : String) : Option String :=
  match (sshUsers.lookup requestedUser).or (sshUsers.lookup wildcardUser) with
  | none => none
  | some mapped =>
    if mapped = "" then none
    else if mapped = identityMap then some requestedUser
    else some mapped

def SshAction.recordingRefusalMessage (action : SshAction) : String :=
  match action.onRecordingFailure with
  | some failure =>
    if failure.rejectSessionWithMessage = "" then action.message
    else failure.rejectSessionWithMessage
  | none => action.message

def SshRule.isExpired (rule : SshRule) (now : DateTime) : Bool :=
  match rule.ruleExpires with
  | none => false
  | some expiry => expiry < now

def SshRule.accepted (rule : SshRule) (action : SshAction) (localUser : String) : SshAccept where
  localUser
  acceptEnv := rule.acceptEnv
  sessionDurationNanos := action.sessionDurationNanos
  allowAgentForwarding := action.allowAgentForwarding
  allowLocalPortForwarding := action.allowLocalPortForwarding
  allowRemotePortForwarding := action.allowRemotePortForwarding
  recorders := action.recorders
  onRecordingFailure := action.onRecordingFailure
  holdAndDelegate := action.holdAndDelegate
  recordingRefusalMessage := action.recordingRefusalMessage

section Evaluate

-- `parse` is the standard library's reading of an IP address.
variable (parse : String → Option IpAddr) (id : SshConnIdentity)

def SshPrincipal.matches' (principal : SshPrincipal) : Bool :=
  principal.any ||
    (principal.node != "" && principal.node = id.stableId) ||
    (principal.nodeIp != "" && (parse principal.nodeIp).any fun ip => ip = id.srcIp) ||
    (principal.userLogin != "" && id.userLogin.any fun login => login = principal.userLogin)

variable (requestedUser : String) (now : DateTime) (rule : SshRule)

def SshRule.tryMatch : Except RuleSkip SshDecision :=
  match rule.action with
  | none => .error .noMatch
  | some action =>
    if rule.isExpired now then .error .noMatch
    else if !(rule.principals.any fun principal => principal.matches' parse id) then
      .error .noMatch
    else if action.reject then .ok (.deny (.explicitReject action.message))
    else
      match mapLocalUser rule.sshUsers requestedUser with
      | none => .error .userMatch
      | some localUser => .ok (.accept (rule.accepted action localUser))

def SshPolicy.evaluateRules (failedOnUser : Bool) : List SshRule → SshDecision
  | [] => .deny (if failedOnUser then .noUserMapping else .noRuleMatched)
  | rule :: rest =>
    match rule.tryMatch parse id requestedUser now with
    | .ok decision => decision
    | .error .userMatch => evaluateRules true rest
    | .error .noMatch => evaluateRules failedOnUser rest

variable (policy : SshPolicy)

def SshPolicy.evaluate : SshDecision :=
  evaluateRules parse id requestedUser now false policy.rules

/-- The rule's entry for the requested user, or else its wildcard, names a local user. -/
def SshRule.MapsTo (localUser : String) : Prop :=
  ∃ entry, (rule.sshUsers.lookup requestedUser = some entry ∨
      rule.sshUsers.lookup requestedUser = none ∧ rule.sshUsers.lookup "*" = some entry) ∧
    entry ≠ "" ∧ (entry = "=" ∧ localUser = requestedUser ∨ entry ≠ "=" ∧ localUser = entry)

/-- The rule has this action, is unexpired, has a matching principal, and rejects or maps the
requested user. -/
def SshRule.Decides (action : SshAction) : Prop :=
  rule.action = some action ∧ rule.isExpired now = false ∧
    (∃ principal ∈ rule.principals, principal.matches' parse id = true) ∧
    (action.reject = true ∨ ∃ localUser, rule.MapsTo requestedUser localUser)

/-- The first rule that decides the connection, with its action. -/
inductive SshPolicy.First : List SshRule → SshRule → SshAction → Prop
  | here {rule : SshRule} {rest : List SshRule} {action : SshAction}
      (decides : rule.Decides parse id requestedUser now action) : First (rule :: rest) rule action
  | later {earlier rule : SshRule} {rest : List SshRule} {action : SshAction}
      (skipped : ∀ other, ¬ earlier.Decides parse id requestedUser now other)
      (first : First rest rule action) : First (earlier :: rest) rule action

/-- Exactly the sessions that the deciding rule accepts, as the user it maps to, are accepted. -/
def SshPolicy.AcceptsAsMarked : Prop :=
  ∀ localUser,
    (∃ details, policy.evaluate parse id requestedUser now = .accept details ∧
      details.localUser = localUser) ↔
    ∃ rule action, First parse id requestedUser now policy.rules rule action ∧
      action.accept = true ∧ action.reject = false ∧ rule.MapsTo requestedUser localUser

/-- The action of the deciding rule is marked accept or reject. -/
def SshPolicy.Marked : Prop :=
  ∀ rule action, First parse id requestedUser now policy.rules rule action →
    action.accept = true ∨ action.reject = true

end Evaluate

variable {parse : String → Option IpAddr} {id : SshConnIdentity} {requestedUser : String}
  {now : DateTime}

theorem mapLocalUser_eq_some {rule : SshRule} {localUser : String} :
    mapLocalUser rule.sshUsers requestedUser = some localUser ↔
      rule.MapsTo requestedUser localUser := by
  rw [mapLocalUser, SshRule.MapsTo]
  have entry (mapped : String) : (if mapped = "" then none else if mapped = identityMap then
      some requestedUser else some mapped) = some localUser ↔ mapped ≠ "" ∧
        (mapped = "=" ∧ localUser = requestedUser ∨ mapped ≠ "=" ∧ localUser = mapped) := by
    rw [identityMap]
    split
    case isTrue empty => simp [empty]
    case isFalse named => split <;> simp_all [eq_comm (a := localUser)]
  cases own : rule.sshUsers.lookup requestedUser with
  | some mapped => simp [entry]
  | none =>
    cases wild : rule.sshUsers.lookup wildcardUser with
    | none => simp_all [wildcardUser]
    | some mapped => simp_all [wildcardUser]

namespace SshRule

variable {rule : SshRule} {action : SshAction}
  (decides : rule.Decides parse id requestedUser now action)
include decides

theorem tryMatch_accepts (keeps : action.reject = false) {localUser : String}
    (maps : rule.MapsTo requestedUser localUser) : rule.tryMatch parse id requestedUser now =
      .ok (.accept (rule.accepted action localUser)) := by
  obtain ⟨held, live, found, -⟩ := decides
  rw [← List.any_eq_true] at found
  simp [tryMatch, held, live, found, keeps, mapLocalUser_eq_some.mpr maps]

omit decides

theorem tryMatch_skips (undecided : ∀ action, ¬ rule.Decides parse id requestedUser now action) :
    ∃ skip, rule.tryMatch parse id requestedUser now = .error skip := by
  cases held : rule.action with
  | none => exact ⟨.noMatch, by rw [tryMatch, held]⟩
  | some action =>
    rw [tryMatch, held]
    dsimp only
    split
    · exact ⟨_, rfl⟩
    case isFalse live =>
    split
    · exact ⟨_, rfl⟩
    case isFalse found =>
    have open' : ¬ (action.reject = true ∨ ∃ localUser, rule.MapsTo requestedUser localUser) :=
      fun applies => undecided action ⟨held, by simpa using live, by simpa using found, applies⟩
    rw [not_or] at open'
    rw [if_neg open'.1]
    split
    · exact ⟨_, rfl⟩
    case h_2 localUser maps => exact (open'.2 ⟨localUser, mapLocalUser_eq_some.mp maps⟩).elim

end SshRule

namespace SshPolicy

variable {rules : List SshRule} {rule rule' : SshRule} {action action' : SshAction}

namespace First

variable (first : First parse id requestedUser now rules rule action)
include first

theorem decides : rule.Decides parse id requestedUser now action := by
  induction first with
  | here decides => exact decides
  | later _ _ ih => exact ih

theorem unique (first' : First parse id requestedUser now rules rule' action') :
    action = action' := by
  induction first with
  | here decides =>
    cases first' with
    | here decides' => exact Option.some.inj (decides.1.symm.trans decides'.1)
    | later skipped _ => exact (skipped _ decides).elim
  | later skipped _ ih =>
    cases first' with
    | here decides' => exact (skipped _ decides').elim
    | later _ first' => exact ih first'

theorem evaluateRules {decision : SshDecision}
    (outcome : rule.tryMatch parse id requestedUser now = .ok decision) (failedOnUser : Bool) :
    evaluateRules parse id requestedUser now failedOnUser rules = decision := by
  induction first generalizing failedOnUser with
  | here _ => rw [SshPolicy.evaluateRules, outcome]
  | later skipped _ ih =>
    obtain ⟨skip, is⟩ := SshRule.tryMatch_skips skipped
    rw [SshPolicy.evaluateRules, is]
    cases skip with
    | noMatch => exact ih outcome failedOnUser
    | userMatch => exact ih outcome true

end First

theorem first_or_denied {rules : List SshRule} :
    (∃ rule action, First parse id requestedUser now rules rule action) ∨
      ∀ failedOnUser, ∃ reason,
        evaluateRules parse id requestedUser now failedOnUser rules = .deny reason := by
  induction rules with
  | nil => exact .inr fun _ => ⟨_, rfl⟩
  | cons earlier rest ih =>
    by_cases decides : ∃ action, earlier.Decides parse id requestedUser now action
    · obtain ⟨action, decides⟩ := decides
      exact .inl ⟨earlier, action, .here decides⟩
    have skipped := not_exists.mp decides
    rcases ih with ⟨rule, action, first⟩ | denied
    · exact .inl ⟨rule, action, .later skipped first⟩
    · refine .inr fun failedOnUser => ?_
      obtain ⟨skip, is⟩ := SshRule.tryMatch_skips skipped
      rw [evaluateRules, is]
      cases skip with
      | noMatch => exact denied failedOnUser
      | userMatch => exact denied true

/-- A session is accepted if the deciding rule does not reject, whether or not it accepts. -/
theorem evaluate_accept_iff {policy : SshPolicy} {localUser : String} :
    (∃ details, policy.evaluate parse id requestedUser now = .accept details ∧
      details.localUser = localUser) ↔
    ∃ rule action, First parse id requestedUser now policy.rules rule action ∧
      action.reject = false ∧ rule.MapsTo requestedUser localUser := by
  constructor
  · rintro ⟨details, is, rfl⟩
    rcases first_or_denied with ⟨rule, action, first⟩ | denied
    case inr =>
      obtain ⟨reason, denied⟩ := denied false
      cases is.symm.trans denied
    cases rejects : action.reject with
    | true =>
      obtain ⟨held, live, found, -⟩ := first.decides
      rw [← List.any_eq_true] at found
      have rejected : rule.tryMatch parse id requestedUser now =
          .ok (.deny (.explicitReject action.message)) := by
        simp [SshRule.tryMatch, held, live, found, rejects]
      cases is.symm.trans (first.evaluateRules rejected false)
    | false =>
      obtain ⟨localUser, maps⟩ := first.decides.2.2.2.resolve_left (by simp [rejects])
      have outcome :=
        first.evaluateRules (SshRule.tryMatch_accepts first.decides rejects maps) false
      cases is.symm.trans outcome
      exact ⟨rule, action, first, rejects, maps⟩
  · rintro ⟨rule, action, first, keeps, maps⟩
    exact ⟨_, first.evaluateRules (SshRule.tryMatch_accepts first.decides keeps maps) false, rfl⟩

/-- The engine goes by the marks of the deciding rule exactly if that rule has one. -/
theorem acceptsAsMarked_iff (policy : SshPolicy) (parse : String → Option IpAddr)
    (id : SshConnIdentity) (requestedUser : String) (now : DateTime) :
    policy.AcceptsAsMarked parse id requestedUser now ↔
      policy.Marked parse id requestedUser now := by
  constructor
  · intro marked rule action first
    cases rejects : action.reject with
    | true => exact .inr rfl
    | false =>
      obtain ⟨localUser, maps⟩ := first.decides.2.2.2.resolve_left (by simp [rejects])
      obtain ⟨rule', action', first', accepts, -⟩ :=
        (marked localUser).mp (evaluate_accept_iff.mpr ⟨rule, action, first, rejects, maps⟩)
      rw [first.unique first']
      exact .inl accepts
  · intro marks localUser
    rw [evaluate_accept_iff]
    constructor
    · rintro ⟨rule, action, first, keeps, maps⟩
      have accepts := (marks rule action first).resolve_right (by simp [keeps])
      exact ⟨rule, action, first, accepts, keeps, maps⟩
    · rintro ⟨rule, action, first, -, keeps, maps⟩
      exact ⟨rule, action, first, keeps, maps⟩

/-- One rule for every source and every user, with an action that is marked neither way. -/
def unmarked : SshPolicy :=
  ⟨[{ ruleExpires := none
      principals := [⟨"", "", "", true⟩]
      sshUsers := AList.insert "*" "=" ∅
      action := some ⟨"", false, false, none, false, false, false, [], none, ""⟩
      acceptEnv := [] }]⟩

def anyPeer : SshConnIdentity := ⟨"n", ⟨.v4, [100, 64, 0, 1], rfl⟩, none⟩

/-- An action that does not accept opens a session as root. -/
theorem unmarked_accepts :
    (∃ details, unmarked.evaluate (fun _ => none) anyPeer "root" 0 = .accept details ∧
      details.localUser = "root") ∧
    ¬ unmarked.AcceptsAsMarked (fun _ => none) anyPeer "root" 0 := by
  have opens : ∃ details, unmarked.evaluate (fun _ => none) anyPeer "root" 0 = .accept details ∧
      details.localUser = "root" := ⟨_, rfl, rfl⟩
  refine ⟨opens, fun marked => ?_⟩
  obtain ⟨rule, action, first, accepts, -⟩ := (marked "root").mp opens
  cases first with
  | here decides =>
    cases decides.1
    cases accepts
  | later _ first => cases first

end SshPolicy

end TailscaleRs.Control
