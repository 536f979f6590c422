import Graft.Bytes

/-!
# Nested brackets

Brackets in a byte string are balanced and properly nested if every opening one has
a closing one of its kind behind it, with nested octets in between. A nested string
may be put in anywhere in another one. Whether a string is nested is decided by
reading it once, with the closing brackets that are still awaited on a stack.
-/

namespace Graft.Bytes

/-- Round and square brackets, the opening one with the closing one. -/
def brackets : List (UInt8 × UInt8) := [(40, 41), (91, 93)]

/-- All brackets of the octets are balanced and properly nested. -/
inductive Nested : Bytes → Prop where
  | nothing : Nested []
  /-- An octet that is no bracket. -/
  | other (octet : UInt8) (rest : Bytes)
      (plain : ∀ pair ∈ brackets, octet ≠ pair.1 ∧ octet ≠ pair.2) (behind : Nested rest) :
      Nested (octet :: rest)
  /-- A pair of brackets around nested octets. -/
  | enclosed (pair : UInt8 × UInt8) (inside rest : Bytes) (kind : pair ∈ brackets)
      (within : Nested inside) (behind : Nested rest) :
      Nested (pair.1 :: inside ++ pair.2 :: rest)

namespace Nested

variable {left right piece : Bytes}

/-- Nested strings one behind the other are nested. The induction is on the first, and the second
stands where that one ends. -/
theorem append (nested : Nested left) (behind : Nested right) : Nested (left ++ right) := by
  induction nested with
  | nothing => exact behind
  | other octet rest plain _ inductionHypothesis => exact .other octet _ plain inductionHypothesis
  | enclosed pair inside rest kind within _ _ inductionHypothesis =>
    rw [List.append_assoc, List.cons_append]
    exact .enclosed pair inside _ kind within inductionHypothesis

/-- Any number of nested strings one behind the other are nested. This is what makes a run of nested
elements nested. -/
theorem flatten {pieces : List Bytes} (nested : ∀ piece ∈ pieces, Nested piece) :
    Nested pieces.flatten := by
  induction pieces with
  | nil => exact .nothing
  | cons piece pieces inductionHypothesis =>
    obtain ⟨first, others⟩ := List.forall_mem_cons.mp nested
    exact first.append (inductionHypothesis others)

/-- A nested string may be put in anywhere in another one, also inside a pair. It stands between the
brackets of the pair then, which close as before. -/
theorem insert (nested : Nested (left ++ right)) (within : Nested piece) :
    Nested (left ++ (piece ++ right)) := by
  generalize whole : left ++ right = text at nested
  induction nested generalizing left right with
  | nothing =>
    obtain ⟨rfl, rfl⟩ := List.append_eq_nil_iff.mp whole
    rwa [List.nil_append, List.append_nil]
  | other octet rest plain behind inductionHypothesis =>
    rcases List.append_eq_cons_iff.mp whole with ⟨rfl, rfl⟩ | ⟨before, rfl, rfl⟩
    · exact within.append (.other octet rest plain behind)
    · exact .other octet _ plain (inductionHypothesis rfl)
  | enclosed pair inside rest kind enclosed behind insideHypothesis restHypothesis =>
    rw [List.cons_append] at whole
    rcases List.append_eq_cons_iff.mp whole with ⟨rfl, rfl⟩ | ⟨before, rfl, parts⟩
    · exact within.append (.enclosed pair inside rest kind enclosed behind)
    -- The place is inside the brackets, or behind the closing one.
    rcases List.append_eq_append_iff.mp parts.symm with ⟨last, rfl, rfl⟩ | ⟨last, rfl, behindIs⟩
    · have filled := Nested.enclosed pair _ rest kind (insideHypothesis rfl) behind
      simpa only [List.cons_append, List.append_assoc] using filled
    · rcases List.append_eq_cons_iff.mp behindIs.symm with ⟨rfl, rfl⟩ | ⟨more, rfl, rfl⟩
      · have filled := Nested.enclosed pair _ rest kind (enclosed.append within) behind
        simpa only [List.cons_append, List.append_assoc, List.append_nil] using filled
      · have filled := Nested.enclosed pair inside _ kind enclosed (restHypothesis rfl)
        simpa only [List.cons_append, List.append_assoc] using filled

end Nested

/-! ## The decision -/

/-- Read octets with closing brackets awaited, the next one first. The answer is whether these are
met in their order with nested octets before, between and behind them. -/
def closes : (awaited : List UInt8) → Bytes → Bool
  | awaited, [] => awaited.isEmpty
  | awaited, octet :: rest =>
    match brackets.find? (·.1 == octet) with
    | some pair => closes (pair.2 :: awaited) rest
    | none =>
      if brackets.any (·.2 == octet) then
        match awaited with
        | [] => false
        | next :: later => next == octet && closes later rest
      else closes awaited rest

/-- The octets meet the awaited brackets in their order, with nested octets before, between and
behind them. -/
def Closing : (awaited : List UInt8) → Bytes → Prop
  | [], text => Nested text
  | next :: later, text =>
    ∃ inside rest, text = inside ++ next :: rest ∧ Nested inside ∧ Closing later rest

/-- Nested octets may come first, as they meet none of the awaited brackets. -/
theorem Closing.prepend {awaited : List UInt8} {front text : Bytes} (nested : Nested front)
    (closing : Closing awaited text) : Closing awaited (front ++ text) := by
  cases awaited with
  | nil => exact nested.append closing
  | cons next later =>
    obtain ⟨inside, rest, rfl, within, behind⟩ := closing
    exact ⟨front ++ inside, rest, (List.append_assoc ..).symm, nested.append within, behind⟩

/-- What is accepted meets the awaited brackets. The induction is on the octets, and a bracket that
opens adds the one that closes it to those awaited. -/
theorem closing_of_closes {awaited : List UInt8} {text : Bytes}
    (accepted : closes awaited text = true) : Closing awaited text := by
  induction text generalizing awaited with
  | nil =>
    obtain rfl := List.isEmpty_iff.mp accepted
    exact .nothing
  | cons octet rest inductionHypothesis =>
    unfold closes at accepted
    split at accepted
    · next pair found =>
      obtain ⟨inside, behind, rfl, within, closing⟩ := inductionHypothesis accepted
      obtain rfl : pair.1 = octet := by simpa using List.find?_some found
      have enclosed := Nested.enclosed pair inside [] (List.mem_of_find?_eq_some found) within
        .nothing
      have whole := closing.prepend enclosed
      simpa only [List.cons_append, List.append_assoc, List.nil_append] using whole
    · next unopened =>
      split at accepted
      · split at accepted
        · cases accepted
        · next next later =>
          obtain ⟨same, further⟩ := Bool.and_eq_true_iff.mp accepted
          obtain rfl := eq_of_beq same
          exact ⟨[], rest, rfl, .nothing, inductionHypothesis further⟩
      · next unclosed =>
        have plain : ∀ pair ∈ brackets, octet ≠ pair.1 ∧ octet ≠ pair.2 := by
          intro pair member
          simp only [List.find?_eq_none, beq_iff_eq] at unopened
          simp only [List.any_eq_true, beq_iff_eq, not_exists, not_and] at unclosed
          exact ⟨Ne.symm (unopened pair member), Ne.symm (unclosed pair member)⟩
        exact (inductionHypothesis accepted).prepend (.other octet [] plain .nothing)

/-- Nested octets are passed over: behind them the reading awaits what it awaited before. -/
theorem closes_append {text : Bytes} (nested : Nested text) (awaited : List UInt8) (more : Bytes) :
    closes awaited (text ++ more) = closes awaited more := by
  induction nested generalizing awaited more with
  | nothing => rfl
  | other octet rest plain _ inductionHypothesis =>
    have unopened : brackets.find? (·.1 == octet) = none := by
      simp only [List.find?_eq_none, beq_iff_eq]
      exact fun pair member same => (plain pair member).1 same.symm
    have unclosed : brackets.any (·.2 == octet) = false := by
      simp only [List.any_eq_false, beq_iff_eq]
      exact fun pair member same => (plain pair member).2 same.symm
    rw [List.cons_append, closes.eq_def]
    simp only [unopened, unclosed, Bool.false_eq_true, if_false]
    exact inductionHypothesis awaited more
  | enclosed pair inside rest kind _ _ insideHypothesis restHypothesis =>
    obtain ⟨opened, unopened, closed⟩ : brackets.find? (·.1 == pair.1) = some pair ∧
        brackets.find? (·.1 == pair.2) = none ∧ brackets.any (·.2 == pair.2) = true := by
      rcases List.mem_cons.mp kind with rfl | kind
      · exact ⟨rfl, rfl, rfl⟩
      · obtain rfl := List.mem_singleton.mp kind
        exact ⟨rfl, rfl, rfl⟩
    rw [List.append_assoc, List.cons_append, closes.eq_def]
    simp only [opened, insideHypothesis, List.cons_append]
    rw [closes.eq_def]
    simp only [unopened, closed, if_true, beq_self_eq_true, Bool.true_and]
    exact restHypothesis awaited more

/-- Octets are nested if the reading accepts them, and only then. Nesting can therefore be decided
by one reading from the left. -/
theorem closes_iff {text : Bytes} : closes [] text = true ↔ Nested text := by
  refine ⟨closing_of_closes, fun nested => ?_⟩
  have passed := closes_append nested [] []
  rw [List.append_nil] at passed
  exact passed

instance (text : Bytes) : Decidable (Nested text) := decidable_of_iff _ closes_iff

end Graft.Bytes
