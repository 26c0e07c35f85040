/-!
# Votes and outcomes

A vote comes in as text. Text other than the three votes is kept, so that it can be shown to
whoever sent it; it counts neither for nor against.
-/
namespace Quorum

/-- What a task, an approver or a member has come to. -/
inductive Outcome
  | pending
  | approved
  | rejected
deriving DecidableEq, Repr, Inhabited

namespace Outcome

/-- Whether the counting is over. Nothing leads away from a final outcome. -/
def isFinal : Outcome → Bool
  | pending => false
  | approved | rejected => true

def text : Outcome → String
  | pending => "Pending"
  | approved => "Approved"
  | rejected => "Rejected"

end Outcome

/-- A vote as it is stored. `other` holds text that is none of the three. A caller may put one of
the three into it as well, and the vote is then not the one that its text is read as. -/
inductive Vote
  | pending
  | approve
  | reject
  | other (text : String)
deriving DecidableEq, Repr, Inhabited

namespace Vote

def text : Vote → String
  | pending => "pending"
  | approve => "approve"
  | reject => "reject"
  | other s => s

/-- The match is exact: neither case nor blanks around a text are overlooked. -/
def ofText (s : String) : Vote :=
  if s = "pending" then pending
  else if s = "approve" then approve
  else if s = "reject" then reject
  else other s

@[simp] theorem text_ofText (s : String) : (ofText s).text = s := by
  simp only [ofText]
  split
  · simp [text, *]
  split
  · simp [text, *]
  split <;> simp [text, *]

/-- Whether validation lets the vote through. It goes by the constructor and not by the text, so
`other "approve"` is unknown. -/
def isKnown : Vote → Bool
  | other _ => false
  | _ => true

/-- Whether the vote counts for or against. Unknown text does neither. -/
def isDecided : Vote → Bool
  | approve | reject => true
  | pending | other _ => false

/-- The outcome that a decided vote stands for. -/
def outcome? : Vote → Option Outcome
  | approve => some .approved
  | reject => some .rejected
  | pending | other _ => none

theorem isDecided_iff_outcome? (v : Vote) : v.isDecided = true ↔ v.outcome?.isSome := by
  cases v <;> simp [isDecided, outcome?]

theorem exists_outcome? {v : Vote} (h : v.isDecided = true) : ∃ o, v.outcome? = some o :=
  Option.isSome_iff_exists.mp ((isDecided_iff_outcome? v).mp h)

/-- Decided votes are told apart by their outcomes, so that a reported outcome names the vote behind
it. -/
theorem eq_of_outcome? {v w : Vote} {o : Outcome} (hv : v.outcome? = some o)
    (hw : w.outcome? = some o) : v = w := by
  have hsame : v.outcome? = w.outcome? := hv.trans hw.symm
  cases v <;> cases w <;> simp [outcome?] at hsame hv ⊢

end Vote
end Quorum
