import Quorum.Proofs.Quotation
import Quorum.Proofs.Roster

/-!
# Two spellings of the approvers

Names may be given as a list, or as a text that holds the list as JSON. Both are the same items
(`TaskParams.approverItems_text`), and items are all that a run looks at, so a run cannot tell them
apart, whether it ends well or not (`TaskParams.list_and_text_agree`).
-/
namespace Quorum.TaskParams
variable {before after : List Param} {names : List String} {value value' : ParamValue}
  {text : String} {p p' : TaskParams} {q : Param}

theorem sortedItems_strings (names : List String) :
    Json.sortedItems (names.map .string) = names.map .string := by
  induction names with
  | nil => rfl
  | cons raw names ih => simp only [List.map_cons, Json.sortedItems, Json.sorted, ih]

theorem approverItems_text (h : Json.parse text = .ok (.array (names.map .string))) :
    approverItems (.text text) = approverItems (.list names) := by
  have hne : text ≠ "" := by
    rintro rfl
    cases h
  simp only [approverItems, if_neg hne, h, Json.sorted, sortedItems_strings]

theorem approversOf_congr (h : approverItems value = approverItems value') :
    approversOf value = approversOf value' := by
  rw [approversOf, approversOf, h]

/-- The parameters of a run that gives its approvers by this value. -/
def givenBy (before after : List Param) (value : ParamValue) : List Param :=
  before ++ ⟨"approvers", value⟩ :: after

theorem ofParams_congr (h : approversOf value = approversOf value') :
    ofParams (givenBy before after value) = ofParams (givenBy before after value') := by
  have htake (p : TaskParams) :
      take p ⟨"approvers", value⟩ = take p ⟨"approvers", value'⟩ := by
    rw [take, take, if_pos rfl, if_pos rfl, h]
  simp only [ofParams, givenBy, List.foldlM_append, List.foldlM_cons, htake]

/-- Other parameters leave the approvers alone. -/
theorem approvers_of_take (hname : q.name ≠ "approvers") (h : take p q = .ok p') :
    p'.approvers = p.approvers := by
  rcases take_cases h with ⟨heq, -⟩ | ⟨-, n, -, rfl⟩ | ⟨-, d, rfl⟩
  · exact absurd heq hname
  · rfl
  · rfl

/-- The last list is the one that counts. -/
theorem approversOf_eq_of_last (hlast : ∀ q ∈ after, q.name ≠ "approvers")
    (h : ofParams (givenBy before after value) = .ok p) : approversOf value = .ok p.approvers := by
  have hfold := (ofParams_eq_ok_iff.mp h).1
  rw [givenBy, List.foldlM_append, bind_eq_ok_iff] at hfold
  obtain ⟨p₁, -, hrest⟩ := hfold
  rw [List.foldlM_cons, bind_eq_ok_iff] at hrest
  obtain ⟨p₂, htake, hafter⟩ := hrest
  have hgiven : approversOf value = .ok p₂.approvers := by
    rcases take_cases htake with ⟨-, as, has, rfl⟩ | ⟨heq, -⟩ | ⟨hne, -⟩
    · exact has
    · exact absurd heq (by simp)
    · exact absurd rfl hne
  refine foldlM_preserves (P := fun p => approversOf value = .ok p.approvers)
    (fun q hq p p' hstep hp => ?_) hafter hgiven
  rw [approvers_of_take (hlast q hq) hstep]
  exact hp

/-- The approvers that the names of a list stand for, in the order in which they come first. -/
structure Lists (as : List Approver) (names : List String) : Prop where
  in_order : as = names.eraseDups.map .named
  distinct : (as.map Approver.key).Nodup
  complete : ∀ raw ∈ names, .named raw ∈ as
  fresh : ∀ a ∈ as, a.vote = .pending ∧ a.message = none ∧ a.members = []

theorem lists_of_approversOf {as : List Approver} (h : approversOf (.list names) = .ok as) :
    Lists as names := by
  have hdistinct := approversOf_distinct h
  obtain ⟨names', hitems, -, rfl⟩ := approversOf_eq_ok_iff.mp h
  obtain rfl : names = names' :=
    List.map_injective_iff.mpr (fun _ _ => Json.string.inj) (Except.ok.inj hitems)
  refine ⟨rfl, hdistinct, fun raw hraw => ?_, fun a ha => ?_⟩
  · exact List.mem_map_of_mem (List.mem_eraseDups.mpr hraw)
  · obtain ⟨raw, -, rfl⟩ := List.mem_map.mp ha
    exact Approver.named_fresh raw

/-- A run ends alike, well or with an error, for a list of names and for a text that holds it, in
compact JSON or in any other. If it ends well and no other list is given behind this one, its
approvers are those of the names: behind the mark a name is that of a group, and without the mark
that of a user. -/
theorem list_and_text_agree (before after : List Param) (names : List String) :
    ofParams (givenBy before after (.text (Json.compact (.array (names.map .string))))) =
      ofParams (givenBy before after (.list names)) ∧
    (∀ text, Json.parse text = .ok (.array (names.map .string)) →
      ofParams (givenBy before after (.text text)) =
        ofParams (givenBy before after (.list names))) ∧
    (∀ p, ofParams (givenBy before after (.list names)) = .ok p →
      (∀ q ∈ after, q.name ≠ "approvers") → Lists p.approvers names) ∧
    (∀ group, Approver.named (Spec.groupMark ++ group) = .group group) ∧
    ∀ raw, ¬ Spec.groupMark.toList <+: raw.toList → Approver.named raw = .user raw := by
  have hagree (text : String) (h : Json.parse text = .ok (.array (names.map .string))) :
      ofParams (givenBy before after (.text text)) =
        ofParams (givenBy before after (.list names)) :=
    ofParams_congr (approversOf_congr (approverItems_text h))
  refine ⟨hagree _ (Json.parse_compact_strings names), hagree, fun p h hlast => ?_,
    Approver.named_mark, fun _ => Approver.named_of_unmarked⟩
  exact lists_of_approversOf (approversOf_eq_of_last hlast h)

/-- A name that has to be escaped, a group, and a name that comes twice. -/
def quotedNames : List String := ["ann \"o'\\neil\"\n", "group:qa", "ann \"o'\\neil\"\n"]

def quotedParams : TaskParams :=
  { approvers := [.user "ann \"o'\\neil\"\n", .group "qa"], required := 2 }

/-- With spaces between the items, and another way to write the line break. -/
def spacedText : String :=
  "[ \"ann \\\"o'\\\\neil\\\"\\u000A\", \"group:qa\" ,\"ann \\\"o'\\\\neil\\\"\\n\" ]"

theorem quotedNames_agree :
    ofParams (givenBy [] [⟨"numberOfApprovalsRequired", .text "2"⟩] (.text spacedText)) =
      .ok quotedParams ∧
    Lists quotedParams.approvers quotedNames := by
  obtain ⟨-, htext, hlists, -⟩ :=
    list_and_text_agree [] [⟨"numberOfApprovalsRequired", .text "2"⟩] quotedNames
  have hlist : ofParams (givenBy [] [⟨"numberOfApprovalsRequired", .text "2"⟩]
      (.list quotedNames)) = .ok quotedParams := by rfl
  have hparse : Json.parse spacedText = .ok (.array (quotedNames.map .string)) := by
    with_unfolding_all rfl
  exact ⟨(htext spacedText hparse).trans hlist, hlists quotedParams hlist (by simp)⟩

end Quorum.TaskParams
