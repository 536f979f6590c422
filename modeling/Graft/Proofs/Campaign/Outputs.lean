import Graft.Campaign.Plan
import Graft.Digest.Md5
import Graft.Proofs.Files
import Graft.Sharing.Access

/-!
# Outputs of a campaign

The workers of a campaign write nothing but outputs: files in the output directory
that are named for digests. Whichever of these have been written, by whichever
workers, the others can be written or not as before.
-/

namespace Graft

/-- A hexadecimal digit is not a slash, as a look at the sixteen of them shows. -/
theorem Bytes.hexDigit_ne_slash {value : Nat} (small : value < 16) : hexDigit value ≠ '/' := by
  have all : ∀ value : Fin 16, hexDigit value ≠ '/' := by decide
  exact all ⟨value, small⟩

/-- Hexadecimal digits tell their values, as a look at all pairs of them shows. -/
theorem Bytes.hexDigit_inj {value other : Nat} (small : value < 16) (otherSmall : other < 16)
    (same : hexDigit value = hexDigit other) : value = other := by
  have all : ∀ value other : Fin 16, hexDigit value = hexDigit other → value = other := by decide
  exact congrArg Fin.val (all ⟨value, small⟩ ⟨other, otherSmall⟩ same)

/-- Octets are told by their hexadecimal digits, of which each has two. -/
theorem Bytes.hex_inj {octets other : Bytes} (same : octets.hex = other.hex) : octets = other := by
  replace same := String.ofList_injective same
  induction octets generalizing other with
  | nil =>
    cases other with
    | nil => rfl
    | cons octet rest => cases same
  | cons octet rest inductionHypothesis =>
    cases other with
    | nil => cases same
    | cons first more =>
      simp only [List.flatMap_cons, List.cons_append, List.nil_append, List.cons.injEq] at same
      obtain ⟨upper, lower, rest⟩ := same
      have small := octet.toNat_lt
      have otherSmall := first.toNat_lt
      have upper := hexDigit_inj (by omega) (by omega) upper
      have lower := hexDigit_inj (by omega) (by omega) lower
      rw [inductionHypothesis rest, UInt8.toNat_inj.mp (show octet.toNat = first.toNat by omega)]

/-- Words are told by the octets that they are written in, one after the other. All words take four
octets, so that it is clear where the next one begins. -/
theorem Bytes.words_inj {words others : List UInt32}
    (same : words.flatMap (fun word => littleEndian 4 word.toNat) =
      others.flatMap fun word => littleEndian 4 word.toNat) : words = others := by
  induction words generalizing others with
  | nil =>
    cases others with
    | nil => rfl
    | cons word rest => cases same
  | cons word words inductionHypothesis =>
    cases others with
    | nil => cases same
    | cons other others =>
      simp only [List.flatMap_cons] at same
      obtain ⟨first, rest⟩ := List.append_inj same (by simp)
      have number := congrArg Bytes.number first
      rw [number_littleEndian 4 _ word.toNat_lt, number_littleEndian 4 _ other.toNat_lt] at number
      rw [UInt32.toNat_inj.mp number, inductionHypothesis rest]

/-- A digest is told by its hexadecimal digits. Files for different digests have different names,
therefore. -/
theorem Md5.Digest.hex_inj {digest other : Md5.Digest} (same : digest.hex = other.hex) :
    digest = other := by
  have words := Bytes.words_inj (Bytes.hex_inj same)
  obtain ⟨first, second, third, fourth⟩ := digest
  obtain ⟨_, _, _, _⟩ := other
  simp only [List.cons.injEq, and_true] at words
  obtain ⟨rfl, rfl, rfl, rfl⟩ := words
  rfl

/-- The hexadecimal digits of a digest are no name that leads to where it is or out of there. There
are too many of them. -/
theorem Md5.Digest.proper_hex (digest : Md5.Digest) : digest.hex ≠ "." ∧ digest.hex ≠ ".." := by
  have long : digest.hex.toList.length = 32 := by
    simp [hex, Bytes.hex, octets, Bytes.littleEndian]
  constructor <;> rintro same <;> rw [same] at long <;> cases long

/-- A digest in hexadecimal digits is a plain name: there is a digit, and no slash. -/
theorem Md5.Digest.plain_hex (digest : Md5.Digest) : FilePath.Plain digest.hex := by
  constructor
  · simp [hex, Bytes.hex, octets, Bytes.littleEndian]
  · rw [hex, Bytes.hex, String.toList_ofList]
    intro slash
    obtain ⟨octet, -, digit⟩ := List.mem_flatMap.mp slash
    have small := octet.toNat_lt
    rcases List.mem_cons.mp digit with upper | lower
    · exact Bytes.hexDigit_ne_slash (by omega) upper.symm
    · exact Bytes.hexDigit_ne_slash (by omega) (List.mem_singleton.mp lower).symm

namespace Campaign

/-- What the workers of a campaign may do to what they share: they write only outputs. -/
def Plan.Issues (plan : Plan) : Access → Prop
  | .write path _ => ∃ directory digest, plan.outputDir = some directory ∧
      path = FilePath.join directory (Md5.Digest.hex digest)
  | _ => True

/-- Every output can be written as it could be with the given files, or is refused as it was. -/
def Plan.TakesOutputs (plan : Plan) (files : Files) (shared : Shared) : Prop :=
  ∀ directory digest content, plan.outputDir = some directory →
    Files.refusal? (shared.files.write (FilePath.join directory (Md5.Digest.hex digest)) content) =
      Files.refusal? (files.write (FilePath.join directory digest.hex) content)

variable {plan : Plan} {files : Files}

/-- With the given files themselves, outputs are taken as they are with them, which is where a
campaign starts. -/
theorem Plan.takesOutputs_of_files {shared : Shared} (same : shared.files = files) :
    plan.TakesOutputs files shared := by
  intro directory digest content _
  rw [same]

/-- No access of a worker changes which outputs can be written. Those that have been written are
files in the directory, and no directories. -/
theorem Plan.TakesOutputs.grant {shared : Shared} (takes : plan.TakesOutputs files shared)
    {access : Access} (issued : plan.Issues access) :
    plan.TakesOutputs files (shared.grant access).2 := by
  cases access with
  | look => exact takes
  | register tree => exact takes
  | note event => exact takes
  | write path content =>
    obtain ⟨directory, digest, chosen, rfl⟩ := issued
    simp only [Shared.grant]
    cases written : shared.files.write (FilePath.join directory digest.hex) content with
    | error cause => exact takes
    | ok next =>
      intro other wanted text chosenOther
      obtain rfl : directory = other := Option.some.inj (chosen.symm.trans chosenOther)
      exact (Files.refusal?_write digest.plain_hex wanted.plain_hex written text).trans
        (takes directory wanted text chosen)

/-- An output is written, or refused for a cause that is known from the given files. The reply is
the same, therefore, at whatever time it is asked for. -/
theorem Plan.TakesOutputs.reply {shared : Shared} (takes : plan.TakesOutputs files shared)
    {directory : String} (chosen : plan.outputDir = some directory) (digest : Md5.Digest)
    (content : Bytes) :
    (shared.grant (.write (FilePath.join directory digest.hex) content)).1 =
      match Files.refusal? (files.write (FilePath.join directory digest.hex) content) with
      | none => .ok ()
      | some cause => .error cause := by
  rw [← takes directory digest content chosen]
  simp only [Shared.grant]
  cases shared.files.write (FilePath.join directory digest.hex) content <;> rfl

end Campaign

end Graft
