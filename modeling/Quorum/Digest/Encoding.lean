import Quorum.Approver
/-!
# Approver lists as octets

What is hashed of an approver list is its number of approvers and then each approver in a frame of
its own. Texts, frames and lists of members are preceded by their length, so lists that share an
encoding can be matched approver by approver and member by member, with the same texts on both
sides. Kinds and votes are encoded by their text.
-/
namespace Quorum.Digest.Encoding

/-- A count as eight octets, the lowest first. Counts that differ by a multiple of `2 ^ 64` look
alike, which no list in memory is long enough for. -/
def count (n : Nat) : List UInt8 := (List.range 8).map fun i => (n >>> (8 * i)).toUInt8

@[simp] theorem length_count (n : Nat) : (count n).length = 8 := by simp [count]

/-- The octets of a text in UTF-8. All texts are encoded by these. -/
def octets (s : String) : List UInt8 := s.toUTF8.toList

/-- A text with its length in front, so that it can be told where it ends. -/
def text (s : String) : List UInt8 := count (octets s).length ++ octets s

def optionalText : Option String → List UInt8
  | some s => 1 :: text s
  | none => [0]

/-- By name, then by vote. Members that are equal in both are encoded alike, so it does not matter
which comes first. -/
def memberLe (m n : Member) : Bool :=
  ((compare m.name n.name).then (compare m.vote.text n.vote.text)).isLE

/-- Members by name and vote, after their number. They are sorted first, so their order in the group
leaves no trace. -/
def members (ms : List Member) : List UInt8 :=
  count ms.length ++ (ms.mergeSort memberLe).flatMap fun m => text m.name ++ text m.vote.text

/-- Everything about an approver that a digest takes notice of. Kinds and votes go by their text. -/
def body (a : Approver) : List UInt8 :=
  text a.kind.text ++ text a.name ++ text a.vote.text ++ optionalText a.message ++ members a.members

/-- An approver with its length in front. Frames are what the list is sorted by. -/
def frame (a : Approver) : List UInt8 := count (body a).length ++ body a

/-- The approvers after their number, the frames in order, so that lists are encoded alike however
they are arranged. -/
def list (approvers : List Approver) : List UInt8 :=
  count approvers.length ++ ((approvers.map frame).mergeSort fun x y => decide (x ≤ y)).flatten

end Quorum.Digest.Encoding
