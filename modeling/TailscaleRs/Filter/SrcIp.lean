import Mathlib.Data.Countable.Basic
import Mathlib.Logic.Equiv.List
import TailscaleRs.Filter.CapGrants

namespace TailscaleRs.Filter

open List Option
open Net (IpAddr IpNet)

/-- `FromStr` and `Display` of a type, as far as the grammar relies on them. -/
structure Text (α : Type) where
  read : List Char → Option α
  write : α → List Char
  read_write : ∀ a, read (write a) = some a
  plain : ∀ {s a}, read s = some a → s ≠ [] ∧ '-' ∉ s ∧ '*' ∉ s

structure AddrText where
  addr : Text IpAddr
  net : Text IpNet
  apart : ∀ {s a}, addr.read s = some a → net.read s = none

/-- A parser returns what it leaves of the text; that nothing is left is asserted in debug builds
only, and these are release builds. -/
def parseWildcard : List Char → Option (List Char × IpRange)
  | '*' :: rest => some (rest, .wildcard)
  | _ => none

def splitDash : List Char → Option (List Char × List Char)
  | [] => none
  | c :: rest => if c = '-' then some ([], rest) else (splitDash rest).map (Prod.map (c :: ·) id)

variable (s : List Char) (T : AddrText)

/-- The text before the dash may not be empty. -/
def parseRange : Option (List Char × IpRange) := do
  let (first, second) ← (splitDash s).filter (·.1 ≠ [])
  let start ← T.addr.read first
  let stop ← T.addr.read second
  if start.isIpv4 = stop.isIpv4 then some ([], .range start stop) else none

def hostNet (addr : IpAddr) : IpNet := ⟨addr, 8 * addr.family.size, Nat.le_refl _⟩

def parsePrefix : Option (List Char × IpRange) :=
  ((T.net.read s).or ((T.addr.read s).map hostNet)).map fun net => ([], .net net.trunc)

def IpRange.parser : Option (List Char × IpRange) :=
  (parseWildcard s).or ((parseRange s T).or (parsePrefix s T))

def parseCap : Option (List Char × SrcIp) :=
  ("cap:".toList.isPrefixOf? s).map fun name => ([], .nodeCap (String.ofList name))

def SrcIp.parser : Option (List Char × SrcIp) :=
  ((IpRange.parser s T).map (Prod.map id .ipRange)).or (parseCap s)

def IpRange.tryFrom : Option IpRange := (IpRange.parser s T).map Prod.snd

def SrcIp.tryFrom : Option SrcIp := (SrcIp.parser s T).map Prod.snd

def IpRange.display : IpRange → List Char
  | .wildcard => ['*']
  | .range start stop => T.addr.write start ++ '-' :: T.addr.write stop
  | .net pfx =>
    if pfx.prefixLen = 8 * pfx.addr.family.size then T.addr.write pfx.addr else T.net.write pfx

/-- The whole text is one item, and the range is the one it writes. -/
inductive Writes : List Char → IpRange → Prop
  | wildcard : Writes ['*'] .wildcard
  | addr {s : List Char} {addr : IpAddr} (read : T.addr.read s = some addr) :
      Writes s (.net (hostNet addr).trunc)
  | net {s : List Char} {net : IpNet} (read : T.net.read s = some net) : Writes s (.net net.trunc)
  | range {s t : List Char} {start stop : IpAddr} (first : T.addr.read s = some start)
      (second : T.addr.read t = some stop) (same : start.isIpv4 = stop.isIpv4) :
      Writes (s ++ '-' :: t) (.range start stop)

/-- The same of a source: a range, or the name of a capability. -/
inductive WritesSource : List Char → SrcIp → Prop
  | ipRange {s : List Char} {range : IpRange} (writes : Writes T s range) :
      WritesSource s (.ipRange range)
  | nodeCap (name : List Char) :
      WritesSource ("cap:".toList ++ name) (.nodeCap (String.ofList name))

/-- A text that starts as the wildcard is the wildcard. -/
def StarAlone : Prop := s.head? = some '*' → s = ['*']

variable {s T} {rest : List Char} {range : IpRange}

theorem splitDash_eq_some {first second : List Char} :
    splitDash s = some (first, second) ↔ '-' ∉ first ∧ s = first ++ '-' :: second := by
  induction s generalizing first with
  | nil => simp [splitDash]
  | cons c rest ih =>
    rw [splitDash]
    split
    case isTrue dash => cases first <;> grind
    case isFalse other =>
      simp only [map_eq_some_iff, Prod.exists, Prod.map, Prod.mk.injEq, id]
      cases first <;> grind

theorem parseRange_eq_some : parseRange s T = some (rest, range) ↔
    rest = [] ∧ ∃ first second start stop, s = first ++ '-' :: second ∧
      T.addr.read first = some start ∧ T.addr.read second = some stop ∧
        start.isIpv4 = stop.isIpv4 ∧ range = .range start stop := by
  simp only [parseRange, bind_eq_bind, bind_eq_some_iff, Prod.exists,
    filter_eq_some_iff, splitDash_eq_some, ite_none_right_eq_some,
    some.injEq, Prod.mk.injEq, decide_eq_true_eq]
  constructor
  · rintro ⟨first, second, ⟨⟨-, rfl⟩, -⟩, start, read, stop, read', same, rfl, rfl⟩
    exact ⟨rfl, first, second, start, stop, rfl, read, read', same, rfl⟩
  · rintro ⟨rfl, first, second, start, stop, rfl, read, read', same, rfl⟩
    obtain ⟨some, dash, -⟩ := T.addr.plain read
    exact ⟨first, second, ⟨⟨dash, rfl⟩, some⟩, start, read, stop, read', same, rfl, rfl⟩

theorem parser_cases (parsed : IpRange.parser s T = some (rest, range)) :
    s = '*' :: rest ∧ range = .wildcard ∨ Writes T s range := by
  simp only [IpRange.parser, or_eq_some_iff, parseRange_eq_some] at parsed
  rcases parsed with parsed | ⟨-, ⟨-, _, _, _, _, rfl, first, second, same, rfl⟩ | ⟨-, parsed⟩⟩
  · unfold parseWildcard at parsed
    split at parsed
    · cases parsed
      exact .inl ⟨rfl, rfl⟩
    · cases parsed
  · exact .inr (.range first second same)
  · obtain ⟨net, read, is⟩ := map_eq_some_iff.mp parsed
    cases is
    rcases or_eq_some_iff.mp read with read | ⟨-, read⟩
    · exact .inr (.net read)
    · obtain ⟨addr, host, rfl⟩ := map_eq_some_iff.mp read
      exact .inr (.addr host)

theorem Writes.starAlone (writes : Writes T s range) : StarAlone s := by
  intro star
  cases writes with
  | wildcard => rfl
  | addr read => exact absurd (mem_of_mem_head? star) (T.addr.plain read).2.2
  | net read => exact absurd (mem_of_mem_head? star) (T.net.plain read).2.2
  | range first second same =>
    obtain ⟨some, -, plain⟩ := T.addr.plain first
    rw [head?_append_of_ne_nil _ some] at star
    exact absurd (mem_of_mem_head? star) plain

theorem parseWildcard_eq_none (star : s.head? ≠ some '*') : parseWildcard s = none := by
  unfold parseWildcard
  split
  · exact absurd rfl star
  · rfl

/-- A text without signs of the grammar is left to the parser of prefixes. -/
theorem parser_plain (dash : '-' ∉ s) (star : '*' ∉ s) : IpRange.parser s T = parsePrefix s T := by
  have range : parseRange s T = none := by
    refine eq_none_iff_forall_ne_some.mpr fun made parsed => ?_
    obtain ⟨-, _, _, _, _, rfl, -⟩ := parseRange_eq_some.mp parsed
    simp at dash
  rw [IpRange.parser, range, parseWildcard_eq_none fun is => star (mem_of_mem_head? is),
    none_or, none_or]

/-- Every item is accepted as what it writes. -/
theorem Writes.parser (writes : Writes T s range) : IpRange.parser s T = some ([], range) := by
  cases writes with
  | wildcard => rfl
  | addr read =>
    obtain ⟨-, dash, star⟩ := T.addr.plain read
    rw [parser_plain dash star, parsePrefix, T.apart read, read]
    rfl
  | net read =>
    obtain ⟨-, dash, star⟩ := T.net.plain read
    rw [parser_plain dash star, parsePrefix, read]
    rfl
  | @range first second start stop read read' same =>
    obtain ⟨some, -, star⟩ := T.addr.plain read
    have head : (first ++ '-' :: second).head? ≠ .some '*' := by
      rw [head?_append_of_ne_nil _ some]
      exact fun is => star (mem_of_mem_head? is)
    have parsed : parseRange (first ++ '-' :: second) T = .some ([], .range start stop) :=
      parseRange_eq_some.mpr ⟨rfl, first, second, start, stop, rfl, read, read', same, rfl⟩
    rw [IpRange.parser, parseWildcard_eq_none head, parsed]
    rfl

theorem Writes.net_display (pfx : IpNet) (clear : pfx.Truncated) :
    Writes T ((IpRange.net pfx).display T) (.net pfx) := by
  rw [IpRange.display]
  split
  case isTrue full =>
    have host := Writes.addr (T.addr.read_write pfx.addr)
    rwa [show hostNet pfx.addr = pfx from IpNet.ext rfl full.symm, clear] at host
  case isFalse =>
    have net := Writes.net (T.net.read_write pfx)
    rwa [clear] at net

theorem Writes.display (writes : Writes T s range) : Writes T (range.display T) range := by
  cases writes with
  | wildcard => exact .wildcard
  | addr => exact .net_display _ (IpNet.truncated_trunc _)
  | net => exact .net_display _ (IpNet.truncated_trunc _)
  | range first second same => exact .range (T.addr.read_write _) (T.addr.read_write _) same

/-- A text is only accepted as what it writes, exactly if it is not the wildcard with a tail; and
an accepted range is read back as it is displayed. -/
theorem source_grammar (T : AddrText) (s : List Char) :
    ((∀ range, IpRange.tryFrom s T = some range → Writes T s range) ↔ StarAlone s) ∧
    ((∀ source, SrcIp.tryFrom s T = some source → WritesSource T s source) ↔ StarAlone s) ∧
    ∀ range, IpRange.tryFrom s T = some range →
      IpRange.tryFrom (range.display T) T = some range := by
  have reads (alone : StarAlone s) (range : IpRange) (accepted : IpRange.tryFrom s T = some range) :
      Writes T s range := by
    obtain ⟨⟨rest, _⟩, parsed, rfl⟩ := map_eq_some_iff.mp accepted
    rcases parser_cases parsed with ⟨is, rfl⟩ | writes
    · rw [alone (is ▸ rfl)]
      exact .wildcard
    · exact writes
  refine ⟨⟨fun holds star => ?_, reads⟩, ⟨fun holds star => ?_, ?_⟩, ?_⟩
  · obtain ⟨tail, rfl⟩ := head?_eq_some_iff.mp star
    exact (holds .wildcard rfl).starAlone star
  · obtain ⟨tail, rfl⟩ := head?_eq_some_iff.mp star
    cases holds (.ipRange .wildcard) rfl with
    | ipRange writes => exact writes.starAlone star
  · intro alone source accepted
    obtain ⟨⟨rest, _⟩, parsed, rfl⟩ := map_eq_some_iff.mp accepted
    rcases or_eq_some_iff.mp parsed with mapped | ⟨-, capped⟩
    · obtain ⟨⟨_, range⟩, made, is⟩ := map_eq_some_iff.mp mapped
      cases is
      exact .ipRange (reads alone range (map_eq_some_iff.mpr ⟨_, made, rfl⟩))
    · obtain ⟨name, named, is⟩ := map_eq_some_iff.mp capped
      cases is
      rw [← isPrefixOf?_eq_some_iff_append_eq.mp named]
      exact .nodeCap name
  · intro range accepted
    obtain ⟨⟨rest, _⟩, parsed, rfl⟩ := map_eq_some_iff.mp accepted
    rcases parser_cases parsed with ⟨-, rfl⟩ | writes
    · rfl
    · rw [IpRange.tryFrom, writes.display.parser]
      rfl

section Strokes

variable {α : Type} [Countable α] {mark : Char}

noncomputable def strokes (mark : Char) (a : α) : List Char :=
  replicate ((exists_injective_nat α).choose a + 1) mark

theorem strokes_injective : Function.Injective (strokes (α := α) mark) := fun _ _ same =>
  (exists_injective_nat α).choose_spec (by simpa [strokes] using same)

/-- Values are written as their number in strokes. -/
noncomputable def strokeText (α : Type) [Countable α] (mark : Char) (dash : '-' ≠ mark)
    (star : '*' ≠ mark) : Text α where
  read := Function.partialInv (strokes mark)
  write := strokes mark
  read_write _ := (strokes_injective.isPartialInv ..).mpr rfl
  plain read := by
    obtain rfl := (strokes_injective.isPartialInv ..).mp read
    simp [strokes, dash, star]

end Strokes

instance addrCountable : Countable IpAddr := by
  refine Function.Injective.countable (f := fun a => a.octets.map UInt8.toNat) fun a b same => ?_
  have octets := map_injective_iff.mpr (fun _ _ => UInt8.toNat_inj.mp) same
  have size : a.family.size = b.family.size := by rw [← a.sized, ← b.sized, octets]
  refine IpAddr.ext ?_ octets
  cases first : a.family <;> cases second : b.family <;> simp_all [Net.Family.size]

instance netCountable : Countable IpNet := by
  refine Function.Injective.countable (f := fun n => (n.addr, n.prefixLen)) fun a b same => ?_
  exact IpNet.ext (congrArg Prod.fst same) (congrArg Prod.snd same)

noncomputable def toyText : AddrText where
  addr := strokeText IpAddr 'a' (by decide) (by decide)
  net := strokeText IpNet 'n' (by decide) (by decide)
  apart read := by
    refine eq_none_iff_forall_ne_some.mpr fun net is => ?_
    have same := (strokes_injective.isPartialInv ..).mp read
    simp [← (strokes_injective.isPartialInv ..).mp is, strokes, replicate_inj] at same

theorem source_grammar_star : WritesSource toyText ['*'] (.ipRange .wildcard) :=
  (source_grammar toyText ['*']).2.1.mpr (fun _ => rfl) _ rfl

/-- The wildcard with a tail is accepted as the wildcard. -/
theorem source_tail_accepted :
    SrcIp.tryFrom "*foo".toList toyText = some (.ipRange .wildcard) ∧
      ¬ WritesSource toyText "*foo".toList (.ipRange .wildcard) := by
  refine ⟨rfl, fun writes => ?_⟩
  cases writes with
  | ipRange writes => exact absurd (writes.starAlone rfl) (by decide)

end TailscaleRs.Filter
