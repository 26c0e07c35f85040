import Quorum.Toml.Reader

/-!
# What a document can hold

Whatever holds of the parts of a document, part by part, holds of its value: a property of truth
values, numbers, strings and moments that passes from items to arrays and from members to tables in
key order holds of everything that is read (`Value.Inherited.parse?`). So every table of a document
lists its keys in order and once, and every moment starts with a digit.
-/
namespace Quorum.Toml

theorem mem_of_lookup_eq_some {key : String} {a : α} {es : List (String × α)}
    (h : es.lookup key = some a) : (key, a) ∈ es := by
  obtain ⟨before, after, rfl, -⟩ := List.lookup_eq_some_iff.mp h
  simp

namespace Value

mutual
def decEq : (v w : Value) → Decidable (v = w)
  | bool a, w => match w with
    | bool b => decidable_of_decidable_of_eq (bool.injEq a b).symm
    | integer _ | float _ | string _ | moment _ | array _ | table _ => isFalse nofun
  | integer a, w => match w with
    | integer b => decidable_of_decidable_of_eq (integer.injEq a b).symm
    | bool _ | float _ | string _ | moment _ | array _ | table _ => isFalse nofun
  | float a, w => match w with
    | float b => decidable_of_decidable_of_eq (float.injEq a b).symm
    | bool _ | integer _ | string _ | moment _ | array _ | table _ => isFalse nofun
  | string a, w => match w with
    | string b => decidable_of_decidable_of_eq (string.injEq a b).symm
    | bool _ | integer _ | float _ | moment _ | array _ | table _ => isFalse nofun
  | moment a, w => match w with
    | moment b => decidable_of_decidable_of_eq (moment.injEq a b).symm
    | bool _ | integer _ | float _ | string _ | array _ | table _ => isFalse nofun
  | array as, w => match w with
    | array bs =>
      have := decEqItems as bs
      decidable_of_decidable_of_eq (array.injEq as bs).symm
    | bool _ | integer _ | float _ | string _ | moment _ | table _ => isFalse nofun
  | table as, w => match w with
    | table bs =>
      have := decEqMembers as bs
      decidable_of_decidable_of_eq (table.injEq as bs).symm
    | bool _ | integer _ | float _ | string _ | moment _ | array _ => isFalse nofun
def decEqItems : (as bs : List Value) → Decidable (as = bs)
  | [], [] => isTrue rfl
  | [], _ :: _ | _ :: _, [] => isFalse nofun
  | a :: as, b :: bs =>
    have := decEq a b
    have := decEqItems as bs
    decidable_of_decidable_of_eq (List.cons.injEq a as b bs).symm
def decEqMembers : (as bs : List (String × Value)) → Decidable (as = bs)
  | [], [] => isTrue rfl
  | [], _ :: _ | _ :: _, [] => isFalse nofun
  | (k, a) :: as, (k', b) :: bs =>
    have := decEq a b
    have := decEqMembers as bs
    decidable_of_iff ((k = k' ∧ a = b) ∧ as = bs) (by simp)
end

instance : DecidableEq Value := decEq

end Value

/-- A property that passes from the parts of a value to the value. -/
structure Value.Inherited (Q : Value → Prop) : Prop where
  bool : ∀ b, Q (.bool b)
  integer : ∀ n, Q (.integer n)
  float : ∀ x, Q (.float x)
  string : ∀ s, Q (.string s)
  moment : ∀ lastHour offset? cs text,
    Moment.normal? lastHour offset? cs = some text → Q (.moment text)
  array : ∀ items, (∀ v ∈ items, Q v) → Q (.array items)
  table : ∀ members, members.Pairwise (·.1 < ·.1) → (∀ m ∈ members, Q m.2) → Q (.table members)

namespace Outline
variable {Q : Value → Prop} {key : String} {o : Outline} {ms ms' : Members}

/-- Every value in the piece has the property. -/
inductive All (Q : Value → Prop) : Outline → Prop
  | value (v : Value) (h : Q v) : All Q (.value v)
  | array (items : List Outline) (h : ∀ o ∈ items, All Q o) : All Q (.array items)
  | closed (ms : Members) (h : ∀ m ∈ ms, All Q m.2) : All Q (.closed ms)
  | table (origin : Origin) (ms : Members) (h : ∀ m ∈ ms, All Q m.2) : All Q (.table origin ms)
  | tables (items : List Members) (h : ∀ ms ∈ items, ∀ m ∈ ms, All Q m.2) : All Q (.tables items)

abbrev Members.All (Q : Value → Prop) (ms : Members) : Prop := ∀ m ∈ ms, Outline.All Q m.2

theorem All.members {origin : Origin} (h : All Q (.table origin ms)) : Members.All Q ms := by
  cases h with
  | table _ _ h => exact h

theorem All.items {items : List Members} (h : All Q (.tables items)) :
    ∀ ms ∈ items, Members.All Q ms := by
  cases h with
  | tables _ h => exact h

namespace Members

theorem All.nil : Members.All Q [] := by simp [All]

theorem All.lookup (h : All Q ms) (ho : ms.lookup key = some o) : o.All Q :=
  h _ (mem_of_lookup_eq_some ho)

theorem All.put (h : All Q ms) (ho : o.All Q) : All Q (put key o ms) := by
  induction ms with
  | nil => simpa [Outline.put, All] using ho
  | cons m ms ih =>
    obtain ⟨hm, hms⟩ := List.forall_mem_cons.mp h
    rw [Outline.put]
    split
    · exact List.forall_mem_cons.mpr ⟨ho, hms⟩
    · exact List.forall_mem_cons.mpr ⟨hm, ih hms⟩

theorem All.addNew (h : All Q ms) (ho : o.All Q) (hadd : addNew key o ms = some ms') :
    All Q ms' := by
  rw [Outline.addNew] at hadd
  split at hadd
  · cases hadd
  · cases hadd
    exact h.put ho

theorem All.addDotted {inside : Option Origin} {keys : List String} (h : All Q ms)
    (ho : o.All Q) (hadd : addDotted o inside keys ms = some ms') : All Q ms' := by
  fun_induction Outline.addDotted o inside keys ms generalizing ms' with
  | case1 => cases hadd
  | case2 inside ms key hinside => exact h.addNew ho hadd
  | case3 => cases hadd
  | case4 inside ms key keys hkeys hlookup ih =>
    obtain ⟨inner, hinner, ⟨⟩⟩ := Option.bind_eq_some_iff.mp hadd
    exact h.put (.table _ _ (ih All.nil hinner))
  | case5 => cases hadd
  | case6 inside ms key keys hkeys origin inner hlookup horigin ih =>
    obtain ⟨inner, hinner, ⟨⟩⟩ := Option.bind_eq_some_iff.mp hadd
    exact h.put (.table _ _ (ih (h.lookup hlookup).members hinner))
  | case7 inside ms key keys hkeys last others hlookup ih =>
    obtain ⟨last', hlast, ⟨⟩⟩ := Option.bind_eq_some_iff.mp hadd
    obtain ⟨hlast', hothers⟩ := List.forall_mem_cons.mp (h.lookup hlookup).items
    exact h.put (.tables _ (List.forall_mem_cons.mpr ⟨ih hlast' hlast, hothers⟩))
  | case8 => cases hadd

/-- A change that keeps the property keeps it wherever it is made. -/
theorem All.within {change : Members → Option Members} {path : List String} (h : All Q ms)
    (hchange : ∀ ms ms', All Q ms → change ms = some ms' → All Q ms')
    (hwithin : within change path ms = some ms') : All Q ms' := by
  fun_induction Outline.within change path ms generalizing ms' with
  | case1 ms => exact hchange _ _ h hwithin
  | case2 ms key keys hlookup ih =>
    obtain ⟨inner, hinner, ⟨⟩⟩ := Option.bind_eq_some_iff.mp hwithin
    exact h.put (.table _ _ (ih All.nil hinner))
  | case3 ms key keys origin inner hlookup ih =>
    obtain ⟨inner, hinner, ⟨⟩⟩ := Option.bind_eq_some_iff.mp hwithin
    exact h.put (.table _ _ (ih (h.lookup hlookup).members hinner))
  | case4 ms key keys last others hlookup ih =>
    obtain ⟨last', hlast, ⟨⟩⟩ := Option.bind_eq_some_iff.mp hwithin
    obtain ⟨hlast', hothers⟩ := List.forall_mem_cons.mp (h.lookup hlookup).items
    exact h.put (.tables _ (List.forall_mem_cons.mpr ⟨ih hlast' hlast, hothers⟩))
  | case5 => cases hwithin

theorem All.openTable (h : All Q ms) (hopen : openTable key ms = some ms') : All Q ms' := by
  rw [Outline.openTable] at hopen
  split at hopen
  · cases hopen
    exact h.put (.table _ _ All.nil)
  · next inner hlookup =>
    cases hopen
    have hothers : All Q (ms.filter (·.1 != key)) := fun m hm => h m (List.mem_filter.mp hm).1
    exact hothers.put (.table _ _ (h.lookup hlookup).members)
  · cases hopen

theorem All.openItem (h : All Q ms) (hopen : openItem key ms = some ms') : All Q ms' := by
  rw [Outline.openItem] at hopen
  split at hopen
  · cases hopen
    exact h.put (.tables _ (by simp))
  · next items hlookup =>
    cases hopen
    exact h.put (.tables _ (List.forall_mem_cons.mpr ⟨All.nil, (h.lookup hlookup).items⟩))
  · cases hopen

end Members

section
variable {revealing : Bool}

theorem exists_of_itemsToValues? {items : List Outline} {vs : List Value}
    (h : itemsToValues? revealing items = some vs) :
    ∀ v ∈ vs, ∃ o ∈ items, toValue? revealing o = some v := by
  induction items generalizing vs with
  | nil => cases h; simp
  | cons o items ih =>
    simp only [itemsToValues?, Option.bind_eq_bind, Option.bind_eq_some_iff] at h
    obtain ⟨v, hv, vs', hvs, ⟨⟩⟩ := h
    rintro w (_ | ⟨_, hw⟩)
    · exact ⟨o, List.mem_cons_self, hv⟩
    · obtain ⟨o', ho', hw⟩ := ih hvs w hw
      exact ⟨o', List.mem_cons_of_mem o ho', hw⟩

theorem of_membersToValues? {vs : List (String × Value)}
    (h : membersToValues? revealing ms = some vs) :
    vs.Pairwise (·.1 < ·.1) ∧ ∀ v ∈ vs, ∃ m ∈ ms, toValue? revealing m.2 = some v.2 := by
  induction ms generalizing vs with
  | nil => cases h; simp
  | cons m ms ih =>
    simp only [membersToValues?, Option.bind_eq_bind, Option.bind_eq_some_iff] at h
    obtain ⟨v, hv, vs', hvs, ⟨⟩⟩ := h
    obtain ⟨hsorted, hfrom⟩ := ih hvs
    refine ⟨putEntry_sorted _ _ hsorted, fun w hw => ?_⟩
    rcases mem_putEntry hw with rfl | hw
    · exact ⟨m, List.mem_cons_self, hv⟩
    · obtain ⟨m', hm', hw⟩ := hfrom w hw
      exact ⟨m', List.mem_cons_of_mem m hm', hw⟩

theorem tableToValue?_cases {v : Value} (h : tableToValue? revealing ms = some v) :
    (∃ members, membersToValues? revealing ms = some members ∧ v = .table members) ∨
      ∃ s text, Moment.spelled? s = some text ∧ v = .moment text := by
  cases ms with
  | nil =>
    cases h
    exact .inl ⟨[], rfl, rfl⟩
  | cons m ms =>
    simp only [tableToValue?, Option.bind_eq_bind, Option.bind_eq_some_iff] at h
    obtain ⟨w, hw, h⟩ := h
    split at h
    · cases w with
      | string s =>
        -- the first key says that the table is a moment
        obtain ⟨text, htext, rfl⟩ := Option.map_eq_some_iff.mp h
        exact .inr ⟨s, text, htext, rfl⟩
      | _ => cases h
    · obtain ⟨members, hmembers, ⟨⟩⟩ := Option.bind_eq_some_iff.mp h
      exact .inl ⟨_, by simp [membersToValues?, hw, hmembers], rfl⟩

theorem of_tablesToValues? {items : List Members} {done vs : List Value}
    (h : tablesToValues? revealing items done = some vs) :
    ∀ v ∈ vs, v ∈ done ∨ ∃ ms ∈ items, tableToValue? revealing ms = some v := by
  induction items generalizing done with
  | nil =>
    cases h
    exact fun v hv => .inl hv
  | cons ms items ih =>
    simp only [tablesToValues?, Option.bind_eq_bind, Option.bind_eq_some_iff] at h
    obtain ⟨w, hw, hvs⟩ := h
    intro v hv
    rcases ih hvs v hv with hdone | ⟨ms', hms', hfrom⟩
    · rcases List.mem_cons.mp hdone with rfl | hdone
      · exact .inr ⟨ms, List.mem_cons_self, hw⟩
      · exact .inl hdone
    · exact .inr ⟨ms', List.mem_cons_of_mem ms hms', hfrom⟩

theorem Members.holds_tableToValue? (hQ : Value.Inherited Q)
    (ih : ∀ m ∈ ms, ∀ v, toValue? revealing m.2 = some v → Q v) {v : Value}
    (h : tableToValue? revealing ms = some v) : Q v := by
  rcases tableToValue?_cases h with ⟨members, hmembers, rfl⟩ | ⟨s, text, htext, rfl⟩
  · obtain ⟨hsorted, hfrom⟩ := of_membersToValues? hmembers
    refine hQ.table members hsorted fun w hw => ?_
    obtain ⟨m, hm, hvalue⟩ := hfrom w hw
    exact ih m hm _ hvalue
  · exact hQ.moment _ _ _ _ htext

theorem All.toValue? (hQ : Value.Inherited Q) (h : o.All Q) {v : Value}
    (hv : toValue? revealing o = some v) : Q v := by
  induction h generalizing v with
  | value w hw =>
    cases hv
    exact hw
  | array items _ ih =>
    obtain ⟨vs, hvs, rfl⟩ := Option.map_eq_some_iff.mp hv
    refine hQ.array vs fun w hw => ?_
    obtain ⟨o, ho, hvalue⟩ := exists_of_itemsToValues? hvs w hw
    exact ih o ho hvalue
  | closed ms _ ih => exact Members.holds_tableToValue? hQ (fun m hm _ => ih m hm) hv
  | table origin ms _ ih => exact Members.holds_tableToValue? hQ (fun m hm _ => ih m hm) hv
  | tables items _ ih =>
    obtain ⟨vs, hvs, rfl⟩ := Option.map_eq_some_iff.mp hv
    refine hQ.array vs fun w hw => ?_
    rcases of_tablesToValues? hvs w hw with hnil | ⟨ms, hms, hvalue⟩
    · cases hnil
    · exact Members.holds_tableToValue? hQ (fun m hm _ => ih ms hms m hm) hvalue

end

end Outline

variable {Q : Value → Prop}

namespace Word
variable {cs : List Char} {v : Value}

theorem exists_of_integerOf {base : Nat} {negative : Bool} {digits : List Char}
    (h : integerOf base negative digits = some v) : ∃ n, v = .integer n := by
  simp only [integerOf, Option.ite_none_left_eq_some, Option.ite_none_right_eq_some,
    Option.some.injEq] at h
  obtain ⟨-, -, rfl⟩ := h
  exact ⟨_, rfl⟩

theorem exists_of_integerIn {base : Nat} (h : integerIn base cs = some v) :
    ∃ n, v = .integer n := by
  obtain ⟨digits, -, h⟩ := Option.bind_eq_some_iff.mp h
  exact exists_of_integerOf h

theorem exists_of_integer? (h : integer? cs = some v) : ∃ n, v = .integer n := by
  simp only [integer?, Option.bind_eq_bind, Option.bind_eq_some_iff] at h
  obtain ⟨digits, -, h⟩ := h
  exact exists_of_integerOf h

theorem exists_of_special? (h : special? cs = some v) : ∃ x, v = .float x := by
  rw [special?] at h
  split at h
  · cases h
    exact ⟨_, rfl⟩
  · cases h
    exact ⟨_, rfl⟩
  · cases h

theorem exists_of_decimal? (h : decimal? cs = some v) : ∃ x, v = .float x := by
  simp only [decimal?, Option.bind_eq_bind, Option.bind_eq_some_iff] at h
  obtain ⟨whole, -, places, -, exponent, -, h⟩ := h
  split at h
  · cases h
    exact ⟨_, rfl⟩
  · split at h
    · cases h
      exact ⟨_, rfl⟩
    · cases h

theorem number?_cases (h : number? cs = some v) :
    (∃ n, v = .integer n) ∨ ∃ x, v = .float x := by
  unfold number? at h
  split at h
  · exact .inl (exists_of_integerIn h)
  · exact .inl (exists_of_integerIn h)
  · exact .inl (exists_of_integerIn h)
  · rcases Option.or_eq_some_iff.mp h with h | ⟨-, h⟩
    · rcases Option.or_eq_some_iff.mp h with h | ⟨-, h⟩
      · exact .inr (exists_of_special? h)
      · exact .inl (exists_of_integer? h)
    · split at h
      · exact .inr (exists_of_decimal? h)
      · cases h

theorem holds_meaning? (hQ : Value.Inherited Q) (h : meaning? cs = some v) : Q v := by
  unfold meaning? at h
  split at h
  · cases h
    exact hQ.bool true
  split at h
  · cases h
    exact hQ.bool false
  rcases Option.or_eq_some_iff.mp h with h | ⟨-, h⟩
  · obtain ⟨text, htext, rfl⟩ := Option.map_eq_some_iff.mp h
    exact hQ.moment _ _ _ _ htext
  · rcases number?_cases h with ⟨n, rfl⟩ | ⟨x, rfl⟩
    · exact hQ.integer n
    · exact hQ.float x

theorem holds_read? (hQ : Value.Inherited Q) {rest : List Char}
    (h : read? cs = some (v, rest)) : Q v := by
  simp only [read?] at h
  split at h
  · obtain ⟨w, hw, ⟨⟩⟩ := Option.map_eq_some_iff.mp h
    exact holds_meaning? hQ hw
  · obtain ⟨w, hw, ⟨⟩⟩ := Option.map_eq_some_iff.mp h
    exact holds_meaning? hQ hw

end Word

/-- Whatever is read with this much fuel has the property in all its parts. -/
structure ReadsAll (Q : Value → Prop) (fuel : Nat) : Prop where
  value : ∀ {room cs o rest}, value? fuel room cs = some (o, rest) → o.All Q
  items : ∀ {room done cs o rest}, (∀ o ∈ done, o.All Q) →
    items? fuel room done cs = some (o, rest) → o.All Q
  members : ∀ {room done cs o rest}, Outline.Members.All Q done →
    members? fuel room done cs = some (o, rest) → o.All Q

namespace ReadsAll
variable {fuel room : Nat} {cs rest : List Char} {o : Outline}

theorem value_succ (hQ : Value.Inherited Q) (ih : ReadsAll Q fuel)
    (h : value? (fuel + 1) room cs = some (o, rest)) : o.All Q := by
  unfold value? at h
  split at h
  · obtain ⟨⟨s, rest'⟩, -, ⟨⟩⟩ := Option.bind_eq_some_iff.mp h
    exact .value _ (hQ.string s)
  · obtain ⟨⟨s, rest'⟩, -, ⟨⟩⟩ := Option.bind_eq_some_iff.mp h
    exact .value _ (hQ.string s)
  · rw [Option.ite_none_left_eq_some] at h
    exact ih.items (by simp) h.2
  · rw [Option.ite_none_left_eq_some] at h
    obtain ⟨-, h⟩ := h
    split at h
    · cases h
      exact .closed _ Outline.Members.All.nil
    · exact ih.members Outline.Members.All.nil h
  · obtain ⟨⟨v, rest'⟩, hread, ⟨⟩⟩ := Option.bind_eq_some_iff.mp h
    exact .value _ (Word.holds_read? hQ hread)

theorem items_succ (ih : ReadsAll Q fuel) {done : List Outline} (hdone : ∀ o ∈ done, o.All Q)
    (h : items? (fuel + 1) room done cs = some (o, rest)) : o.All Q := by
  rw [items?] at h
  split at h
  · cases h
    exact .array _ fun o ho => hdone o (List.mem_reverse.mp ho)
  split at h
  · cases h
  next v cs' hread =>
  have hmore : ∀ o ∈ v :: done, o.All Q := List.forall_mem_cons.mpr ⟨ih.value hread, hdone⟩
  split at h
  · exact ih.items hmore h
  · cases h
    exact .array _ fun o ho => hmore o (List.mem_reverse.mp ho)
  · cases h

theorem members_succ (ih : ReadsAll Q fuel) {done : Outline.Members}
    (hdone : Outline.Members.All Q done)
    (h : members? (fuel + 1) room done cs = some (o, rest)) : o.All Q := by
  rw [members?] at h
  split at h
  · split at h
    · cases h
    next v cs' hread =>
    split at h
    · next done' _ _ hadd _ => exact ih.members (hdone.addDotted (ih.value hread) hadd) h
    · next done' _ _ hadd _ =>
      cases h
      exact .closed _ (hdone.addDotted (ih.value hread) hadd)
    · cases h
  · cases h

end ReadsAll

/-- By induction on the fuel, which values, items and members spend together. -/
theorem readsAll (hQ : Value.Inherited Q) (fuel : Nat) : ReadsAll Q fuel := by
  induction fuel with
  | zero => exact ⟨nofun, fun _ => nofun, fun _ => nofun⟩
  | succ fuel ih => exact ⟨ih.value_succ hQ, ih.items_succ, ih.members_succ⟩

namespace Draft
variable {d d' : Draft} {cs rest : List Char}

theorem all_openHeader {enter : String → Outline.Members → Option Outline.Members}
    {path : List String} (hd : d.members.All Q)
    (henter : ∀ key ms ms', Outline.Members.All Q ms → enter key ms = some ms' →
      Outline.Members.All Q ms')
    (h : d.openHeader enter path = some d') : d'.members.All Q := by
  simp only [openHeader, Option.bind_eq_bind, Option.bind_eq_some_iff] at h
  obtain ⟨key, -, ms, hms, ⟨⟩⟩ := h
  exact hd.within (henter key) hms

theorem all_header? (hd : d.members.All Q) (h : d.header? cs = some (d', rest)) :
    d'.members.All Q := by
  unfold header? at h
  split at h
  · simp only [Option.bind_eq_bind, Option.bind_eq_some_iff] at h
    obtain ⟨⟨path, behind⟩, -, h⟩ := h
    split at h
    · simp only [Option.bind_eq_some_iff] at h
      obtain ⟨opened, hopen, behind, -, ⟨⟩⟩ := h
      exact all_openHeader hd (fun _ _ _ hms => hms.openItem) hopen
    · cases h
  · simp only [Option.bind_eq_bind, Option.bind_eq_some_iff] at h
    obtain ⟨⟨path, behind⟩, -, h⟩ := h
    split at h
    · simp only [Option.bind_eq_some_iff] at h
      obtain ⟨opened, hopen, behind, -, ⟨⟩⟩ := h
      exact all_openHeader hd (fun _ _ _ hms => hms.openTable) hopen
    · cases h

theorem all_setting? (hQ : Value.Inherited Q) {fuel : Nat} (hd : d.members.All Q)
    (h : d.setting? fuel cs = some (d', rest)) : d'.members.All Q := by
  simp only [setting?, Option.bind_eq_bind, Option.bind_eq_some_iff] at h
  obtain ⟨⟨keys, behind⟩, -, h⟩ := h
  split at h
  · simp only [Option.bind_eq_some_iff] at h
    obtain ⟨⟨v, behind⟩, hread, _, -, ms, hms, ⟨⟩⟩ := h
    exact hd.within (fun _ _ hms => hms.addDotted ((readsAll hQ fuel).value hread)) hms
  · cases h

theorem all_line? (hQ : Value.Inherited Q) {fuel : Nat} (hd : d.members.All Q)
    (h : d.line? fuel cs = some (d', rest)) : d'.members.All Q := by
  unfold line? at h
  split at h
  · exact all_header? hd h
  · split at h
    · cases h
      exact hd
    · exact all_setting? hQ hd h

theorem all_lines? (hQ : Value.Inherited Q) {fuel : Nat} (hd : d.members.All Q)
    (h : lines? fuel d cs = some d') : d'.members.All Q := by
  fun_induction lines? fuel d cs with
  | case1 => cases h
  | case2 =>
    cases h
    exact hd
  | case3 => cases h
  | case4 cs fuel d hcs d'' rest hline ih => exact ih (all_line? hQ hd hline) h

end Draft

/-- A property that passes from parts to wholes holds of every value that is read. -/
theorem Value.Inherited.parse? (hQ : Value.Inherited Q) {revealing : Bool} {text : String}
    {v : Value} (h : parse? revealing text = some v) : Q v := by
  obtain ⟨o, ho, hv⟩ := Option.bind_eq_some_iff.mp h
  obtain ⟨d, hd, rfl⟩ := Option.map_eq_some_iff.mp ho
  have hall : d.members.All Q := Draft.all_lines? hQ Outline.Members.All.nil hd
  exact Outline.All.toValue? hQ (.table _ _ hall) hv

/-- A document is a table, unless it spells a moment. -/
theorem table_or_moment_of_parse? {revealing : Bool} {text : String} {v : Value}
    (h : parse? revealing text = some v) :
    (∃ members, v = .table members) ∨ ∃ moment, v = .moment moment := by
  obtain ⟨o, ho, hv⟩ := Option.bind_eq_some_iff.mp h
  obtain ⟨d, -, rfl⟩ := Option.map_eq_some_iff.mp ho
  rcases Outline.tableToValue?_cases hv with ⟨members, -, rfl⟩ | ⟨s, moment, -, rfl⟩
  · exact .inl ⟨members, rfl⟩
  · exact .inr ⟨moment, rfl⟩

namespace Value
variable {v : Value} {revealing : Bool} {text : String}

theorem orderedItems_iff {items : List Value} :
    OrderedItems items ↔ ∀ v ∈ items, Ordered v := by
  induction items with
  | nil => simp [OrderedItems]
  | cons v items ih => simp [OrderedItems, ih]

theorem orderedMembers_iff {members : List (String × Value)} :
    OrderedMembers members ↔ ∀ m ∈ members, Ordered m.2 := by
  induction members with
  | nil => simp [OrderedMembers]
  | cons m members ih => simp [OrderedMembers, ih]

theorem ordered_table_iff {members : List (String × Value)} :
    Ordered (.table members) ↔
      members.Pairwise (·.1 < ·.1) ∧ ∀ m ∈ members, Ordered m.2 := by
  rw [Ordered, orderedMembers_iff]

theorem inherited_ordered : Inherited Ordered where
  bool _ := trivial
  integer _ := trivial
  float _ := trivial
  string _ := trivial
  moment _ _ _ _ _ := trivial
  array _ h := orderedItems_iff.mpr h
  table _ hsorted h := ordered_table_iff.mpr ⟨hsorted, h⟩

theorem ordered_of_parse? (h : parse? revealing text = some v) : v.Ordered :=
  inherited_ordered.parse? h

end Value

namespace Moment

/-- The text starts with a digit. -/
def StartsWithDigit (text : String) : Prop := ∃ c cs, text.toList = c :: cs ∧ c.isDigit = true

theorem exists_of_date? {cs date rest : List Char} (h : date? cs = some (date, rest)) :
    ∃ c ds, date = c :: ds ∧ c.isDigit = true := by
  unfold date? at h
  split at h
  · next a b c d _ _ _ _ _ =>
    simp only [Option.bind_eq_bind] at h
    split at h
    · cases h
    · next hdigits =>
      simp only [Option.bind_eq_some_iff, Option.ite_none_left_eq_some] at h
      obtain ⟨month, -, day, -, -, ⟨⟩⟩ := h
      have hdigits : [a, b, c, d].all Char.isDigit = true := by simpa using hdigits
      exact ⟨a, _, rfl, List.all_eq_true.mp hdigits a List.mem_cons_self⟩
  · cases h

theorem isDigit_of_twoDigits? {most n : Nat} {a b : Char} (h : twoDigits? most a b = some n) :
    a.isDigit = true := by
  rw [twoDigits?, Option.ite_none_right_eq_some] at h
  simp only [Bool.and_eq_true] at h
  exact h.1.1.1

theorem exists_of_time? {lastHour : Nat} {cs time rest : List Char}
    (h : time? lastHour cs = some (time, rest)) : ∃ c ds, time = c :: ds ∧ c.isDigit = true := by
  unfold time? at h
  split at h
  · next a b _ _ _ _ _ =>
    simp only [Option.bind_eq_bind, Option.bind_eq_some_iff] at h
    obtain ⟨hour, hhour, minute, -, second, -, h⟩ := h
    have hdigit : a.isDigit = true := isDigit_of_twoDigits? hhour
    split at h
    · split at h
      · cases h
      · cases h
        exact ⟨a, _, rfl, hdigit⟩
    · cases h
      exact ⟨a, _, rfl, hdigit⟩
  · cases h

theorem startsWithDigit_of_normal? {lastHour : Nat} {offset? : List Char → Option (List Char)}
    {cs : List Char} {text : String} (h : normal? lastHour offset? cs = some text) :
    StartsWithDigit text := by
  unfold normal? at h
  split at h
  · next date hdate =>
    cases h
    obtain ⟨c, ds, rfl, hc⟩ := exists_of_date? hdate
    exact ⟨c, ds, by simp, hc⟩
  · next date mark cs' hdate =>
    simp only [Option.bind_eq_bind, Option.ite_none_right_eq_some, Option.bind_eq_some_iff] at h
    obtain ⟨-, ⟨time, behind⟩, -, zone, -, ⟨⟩⟩ := h
    obtain ⟨c, ds, rfl, hc⟩ := exists_of_date? hdate
    exact ⟨c, ds ++ 'T' :: time ++ zone, by simp, hc⟩
  · split at h
    · next time htime =>
      cases h
      obtain ⟨c, ds, rfl, hc⟩ := exists_of_time? htime
      exact ⟨c, ds, by simp, hc⟩
    · cases h

end Moment

/-- A text that starts with no byte order mark is read from its first character on. -/
theorem parse?_of_toList {revealing : Bool} {text : String} {c : Char} {cs : List Char}
    (htext : text.toList = c :: cs) (hmark : c ≠ '\uFEFF') :
    parse? revealing text = ((Draft.lines? (2 * (cs.length + 1) + 3) {} (c :: cs)).map
      fun d => Outline.table .header d.members).bind (Outline.toValue? revealing) := by
  unfold parse? outline?
  rw [htext]
  split
  · next heq => exact absurd (List.cons.inj heq).1 hmark
  · rfl

/-- A document spells its moments with a digit in front. -/
theorem Value.startsWithDigit_of_parse? {v : Value} {revealing : Bool} {text moment : String}
    {path : List String} (h : parse? revealing text = some v)
    (hmoment : v.at? path = some (.moment moment)) : Moment.StartsWithDigit moment := by
  have hinherited : Inherited fun v => ∀ path t, v.at? path = some (.moment t) →
      Moment.StartsWithDigit t := by
    have leaf {v : Value} (hmember : ∀ key, v.member? key = none) (hne : ∀ t, v ≠ .moment t) :
        ∀ path t, v.at? path = some (.moment t) → Moment.StartsWithDigit t := by
      rintro (_ | ⟨key, path⟩) t hat
      · exact absurd (Option.some.inj hat) (hne t)
      · rw [at?, hmember] at hat
        cases hat
    refine ⟨fun _ => leaf (fun _ => rfl) (by simp), fun _ => leaf (fun _ => rfl) (by simp),
      fun _ => leaf (fun _ => rfl) (by simp), fun _ => leaf (fun _ => rfl) (by simp), ?_,
      fun _ _ => leaf (fun _ => rfl) (by simp), ?_⟩
    · rintro _ _ _ text htext (_ | ⟨key, path⟩) t hat
      · cases hat
        exact Moment.startsWithDigit_of_normal? htext
      · cases hat
    · rintro members - hmembers (_ | ⟨key, path⟩) t hat
      · cases hat
      · obtain ⟨w, hw, hat⟩ := Option.bind_eq_some_iff.mp hat
        exact hmembers _ (mem_of_lookup_eq_some hw) path t hat
  exact hinherited.parse? h path moment hmoment

end Quorum.Toml
