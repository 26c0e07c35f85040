import Quorum.Digest
import Quorum.Proofs.Reordering
import Quorum.Proofs.Rightful

/-!
# Digests see everything but the order

Members are encoded in the order of their texts and approvers in that of their octets, so approvers
that can be matched, each reading the same, are encoded alike (`Encoding.list_eq_of_matching`). As
no other lists share their octets, a digest tells apart all lists but those
(`ofApprovers_eq_iff_matching`), as long as the hash tells their octets apart.
-/
namespace Quorum

namespace Approver
variable {a b : Approver} {as bs : List Approver}

theorem SameButOrder.readsAs (h : a.SameButOrder b) : a.ReadsAs b := by
  obtain ⟨hms⟩ := h
  exact ⟨rfl, rfl, rfl, rfl, hms.map _⟩

theorem Reordering.matching (h : Reordering as bs) : Matching as bs :=
  MatchedBy.mono h fun _ _ _ _ hab => hab.readsAs

end Approver

namespace Digest.Encoding
variable {a b : Approver} {as bs : List Approver} {ms ns : List Member}

/-- By name, then by vote, as the members of an approver are sorted. -/
def compareTexts : String × String → String × String → Ordering :=
  compareLex (compareOn (·.1)) (compareOn (·.2))

instance : Std.TransCmp compareTexts := by
  unfold compareTexts
  infer_instance

theorem eq_of_compareTexts {p q : String × String} (h : compareTexts p q = .eq) : p = q := by
  simp only [compareTexts, compareLex, compareOn, Ordering.then_eq_eq, Std.compare_eq_iff_eq] at h
  exact Prod.ext h.1 h.2

/-- Members are encoded in one order, whatever order they come in. -/
theorem members_eq_of_perm (h : (ms.map Member.texts).Perm (ns.map Member.texts)) :
    members ms = members ns := by
  let pair (p : String × String) : List UInt8 := text p.1 ++ text p.2
  have hmembers (ms : List Member) : members ms = count (ms.map Member.texts).length ++
      ((ms.map Member.texts).mergeSort fun p q => (compareTexts p q).isLE).flatMap pair := by
    have hsorted : (ms.mergeSort memberLe).map Member.texts =
        (ms.map Member.texts).mergeSort fun p q => (compareTexts p q).isLE :=
      List.map_mergeSort fun _ _ _ _ => rfl
    rw [members, ← hsorted, List.flatMap_map, List.length_map]
    rfl
  have hsorted := mergeSort_eq_of_perm compareTexts h fun _ _ _ _ => eq_of_compareTexts
  rw [hmembers, hmembers, h.length_eq, hsorted]

theorem frame_eq_of_readsAs (h : a.ReadsAs b) : frame a = frame b := by
  have hbody : body a = body b := by
    unfold body
    rw [h.kind, h.name, h.vote, h.message, members_eq_of_perm h.members]
  rw [frame, frame, hbody]

/-- Frames are put down in the order of their octets, whatever order they come in. -/
theorem list_eq_of_frames_perm (h : (as.map frame).Perm (bs.map frame)) : list as = list bs := by
  let sorted (as : List Approver) := (as.map frame).mergeSort fun x y => decide (x ≤ y)
  have hperm (as : List Approver) : (sorted as).Perm (as.map frame) := List.mergeSort_perm _ _
  have hpairwise (as : List Approver) :
      (sorted as).Pairwise fun x y => decide (x ≤ y) = true := by
    refine List.pairwise_mergeSort (fun x y z hxy hyz => ?_) (fun x y => ?_) _
    · exact decide_eq_true (List.le_trans (of_decide_eq_true hxy) (of_decide_eq_true hyz))
    · simpa using List.le_total x y
  have hsorted : sorted as = sorted bs :=
    List.Perm.eq_of_pairwise (fun x y _ _ hxy hyx =>
        List.le_antisymm (of_decide_eq_true hxy) (of_decide_eq_true hyx))
      (hpairwise as) (hpairwise bs) (((hperm as).trans h).trans (hperm bs).symm)
  have hlength : as.length = bs.length := by simpa using h.length_eq
  have hlist (as : List Approver) : list as = count as.length ++ (sorted as).flatten := rfl
  rw [hlist, hlist, hlength, hsorted]

theorem list_eq_of_matching (h : Approver.Matching as bs) : list as = list bs :=
  list_eq_of_frames_perm (MatchedBy.map_perm h fun _ _ _ _ => frame_eq_of_readsAs)

theorem list_eq_iff_matching (has : ListFits as) (hbs : ListFits bs) :
    list as = list bs ↔ Approver.Matching as bs :=
  ⟨matching_of_list_eq has hbs, list_eq_of_matching⟩

end Digest.Encoding

namespace Digest
open Encoding
variable {as bs : List Approver}

/-- Approver lists are encoded alike if and only if their approvers can be matched one to one, so
that those that are matched read the same but for the order of their members. So their digests are
equal if and only if they can be matched, or, if texts are read as what they are, if and only if
they are the same but for the order of approvers and members: unless the hash takes two encodings
that differ to one digest. -/
theorem ofApprovers_eq_iff_matching (has : ListFits as) (hbs : ListFits bs) :
    (Encoding.list as = Encoding.list bs ↔ Approver.Matching as bs) ∧
    ((hash (Encoding.list as) = hash (Encoding.list bs) → Encoding.list as = Encoding.list bs) →
      (ofApprovers as = ofApprovers bs ↔ Approver.Matching as bs) ∧
      ((∀ a ∈ as, a.Legible) → (∀ b ∈ bs, b.Legible) →
        (ofApprovers as = ofApprovers bs ↔ Approver.Reordering as bs))) := by
  have hlist := list_eq_iff_matching has hbs
  refine ⟨hlist, fun hinjective => ?_⟩
  have hdigest : ofApprovers as = ofApprovers bs ↔ Approver.Matching as bs := by
    rw [← hlist]
    exact ⟨hinjective, congrArg hash⟩
  refine ⟨hdigest, fun has hbs => ?_⟩
  rw [hdigest]
  exact ⟨fun h => h.reordering has hbs, fun h => h.matching⟩

open Approver in
theorem turned_team_has_same_digest : ListFits teamList ∧ ListFits turnedTeamList ∧
    ofApprovers teamList = ofApprovers turnedTeamList := by
  have hfits : ListFits teamList := by decide +kernel
  have hturned : ListFits turnedTeamList := by decide +kernel
  have hwell : (⟨teamList, 1, none⟩ : Spec).WellFormed :=
    Spec.problems_eq_nil_iff.mp (by decide)
  have hwell' : (⟨turnedTeamList, 1, none⟩ : Spec).WellFormed :=
    Spec.problems_eq_nil_iff.mp (by decide)
  obtain ⟨hlist, hdigest⟩ := ofApprovers_eq_iff_matching hfits hturned
  have hencoded := hlist.mpr teamList_reordering.matching
  exact ⟨hfits, hturned,
    ((hdigest fun _ => hencoded).2 hwell.legible hwell'.legible).mpr teamList_reordering⟩

end Digest
end Quorum
