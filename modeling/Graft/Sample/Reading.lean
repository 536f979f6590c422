import Graft.Fault
import Graft.Grammar.Basic
import Graft.Sample.Error
import Graft.Sample.Wire

/-!
# Reading samples

The octets are read from left to right. Each reader returns the octets that are
left together with the fact that there are fewer of them, which is why reading
ends. The whole tree is read first, then nothing may be left, and only then are
its names looked up in the grammar, a node before its children.

A length above what any allocation can hold is a fault and no refusal: a leaf
or a name takes one octet per element, an entry of a child list 48. Whether memory
is at hand for a length below that is not asked.
-/

namespace Graft

namespace Sample

/-- The most octets that an allocation can hold, whatever the machine. An allocator may also
    refuse less than this, for want of memory. Such a refusal depends on the machine and on the
    moment; it is left out, and every length up to the limit counts as one that is granted. -/
def allocationLimit : Nat := 9223372036854775807

/-- The octets that one entry of a child list takes up. -/
def entrySize : Nat := 48

/-- Why reading ends early. -/
abbrev Refusal := Stop SampleError

/-- Octets left after a reader that consumed at least one. -/
abbrev Shorter (octets : Bytes) := { rest : Bytes // rest.length < octets.length }

/-- Octets left after a reader that may have consumed none. -/
abbrev NotLonger (octets : Bytes) := { rest : Bytes // rest.length ≤ octets.length }

/-- Take a field of known length. What it lacks is reported exactly. -/
def readField (length : Nat) (octets : Bytes) : Except Refusal (Bytes × NotLonger octets) :=
  let field := octets.take length
  if field.length < length then .error (.error (.unexpectedEnd (length - field.length)))
  else .ok (field, ⟨octets.drop length, by simp⟩)

/-- Take a number of a positive width. -/
def readNumber (width : Nat) (positive : 0 < width) (octets : Bytes) :
    Except Refusal (Nat × Shorter octets) :=
  let field := octets.take width
  if enough : field.length < width then
    .error (.error (.unexpectedEnd (width - field.length)))
  else .ok (Bytes.number field, ⟨octets.drop width, by
    have available : field.length ≤ octets.length := List.length_take_le' width octets
    simp only [List.length_drop]
    omega⟩)

/-- Take octets that are preceded by their number. -/
def readOctets (octets : Bytes) : Except Refusal (Bytes × Shorter octets) :=
  match readNumber 8 (Nat.zero_lt_succ _) octets with
  | .error refusal => .error refusal
  | .ok (length, rest) =>
    if allocationLimit < length then .error (.fault (.oversizedLength length))
    else
      match readField length rest.val with
      | .error refusal => .error refusal
      | .ok (field, left) => .ok (field, ⟨left.val, Nat.lt_of_le_of_lt left.property rest.property⟩)

/-- A node without its children. -/
inductive Header where
  | text (octets : Bytes)
  | expansion (name : String) (arity : Nat)

/-- Read a node up to its children. -/
def readHeader (octets : Bytes) : Except Refusal (Header × Shorter octets) :=
  match readNumber 4 (Nat.zero_lt_succ _) octets with
  | .error refusal => .error refusal
  | .ok (0, rest) =>
    match readOctets rest.val with
    | .error refusal => .error refusal
    | .ok (field, left) =>
      match Text.Utf8.decode field with
      | .error fault => .error (.error (.invalidName fault))
      | .ok name =>
        match readNumber 8 (Nat.zero_lt_succ _) left.val with
        | .error refusal => .error refusal
        | .ok (arity, last) =>
          if allocationLimit < entrySize * arity then
            .error (.fault (.oversizedLength (entrySize * arity)))
          else
            .ok (.expansion name arity, ⟨last.val,
              Nat.lt_trans last.property (Nat.lt_trans left.property rest.property)⟩)
  | .ok (1, rest) =>
    match readOctets rest.val with
    | .error refusal => .error refusal
    | .ok (field, left) =>
      .ok (.text field, ⟨left.val, Nat.lt_trans left.property rest.property⟩)
  | .ok (found, _) => .error (.error (.unexpectedVariant found))

mutual

/-- Read a node and everything below it. -/
def readNode (octets : Bytes) : Except Refusal (Wire × Shorter octets) :=
  match readHeader octets with
  | .error refusal => .error refusal
  | .ok (.text field, rest) => .ok (.text field, rest)
  | .ok (.expansion name arity, rest) =>
    match readRow arity rest.val with
    | .error refusal => .error refusal
    | .ok (children, left) =>
      .ok (.expansion name children,
        ⟨left.val, Nat.lt_of_le_of_lt left.property rest.property⟩)
termination_by 2 * octets.length
decreasing_by
  have := rest.property
  omega

/-- Read so many nodes in a row. -/
def readRow (arity : Nat) (octets : Bytes) : Except Refusal (List Wire × NotLonger octets) :=
  match arity with
  | 0 => .ok ([], ⟨octets, Nat.le_refl _⟩)
  | arity + 1 =>
    match readNode octets with
    | .error refusal => .error refusal
    | .ok (first, rest) =>
      match readRow arity rest.val with
      | .error refusal => .error refusal
      | .ok (others, left) =>
        .ok (first :: others,
          ⟨left.val, Nat.le_trans left.property (Nat.le_of_lt rest.property)⟩)
termination_by 2 * octets.length + 1
decreasing_by
  · omega
  · have := rest.property
    omega

end

end Sample

namespace Grammar

mutual

/-- The tree of a written tree, with the grammar's own symbol for every name. -/
def resolve (grammar : Grammar) : Wire → Except SampleError Tree
  | .text octets => .ok (.text octets)
  | .expansion name children =>
    match grammar.symbol? name with
    | none => .error (.unknownSymbol name)
    | some symbol => do return .expansion symbol (← resolveAll grammar children)

/-- The trees of written trees in a row. -/
def resolveAll (grammar : Grammar) : List Wire → Except SampleError (List Tree)
  | [] => .ok []
  | wire :: rest => do
    let tree ← resolve grammar wire
    return tree :: (← resolveAll grammar rest)

end

/-- Read a sample as a tree over the grammar's symbols. -/
def readSample (grammar : Grammar) (sample : Bytes) : Except Sample.Refusal Tree :=
  if sample.isEmpty then .error (.error .empty)
  else
    match Sample.readNode sample with
    | .error refusal => .error refusal
    | .ok (wire, rest) =>
      if rest.val.isEmpty then (grammar.resolve wire).mapError .error
      else .error (.error (.trailing rest.val.length))

end Grammar

end Graft
