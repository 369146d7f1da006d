import Overpass.Attributes

set_option autoImplicit false

namespace Rinq

/-- `visit` is an order in which Go's `range` may visit the map: each entry once. -/
def RangeOrder {β : Type} (m : Finmap fun _ : String => β) (visit : List (Σ _ : String, β)) :
    Prop :=
  (visit : Multiset (Σ _ : String, β)) = m.entries

instance {β : Type} [DecidableEq β] (m : Finmap fun _ : String => β)
    (visit : List (Σ _ : String, β)) : Decidable (RangeOrder m visit) :=
  inferInstanceAs (Decidable (_ = _))

theorem RangeOrder.mem_iff {β : Type} {m : Finmap fun _ : String => β}
    {visit : List (Σ _ : String, β)} (order : RangeOrder m visit) {key : String} {value : β} :
    ⟨key, value⟩ ∈ visit ↔ m.lookup key = some value := by
  rw [Finmap.lookup_eq_some_iff, ← order, Multiset.mem_coe]

/-- `rinq.Constraint`: keys to the values they must have. A nil constraint has no entries. -/
abbrev Constraint := Finmap fun _ : String => String

namespace Attrmeta

variable {w : Nat}

/-- The `Value` Go reads as `t[key].Value`: the entry's, or the zero value's `""`. -/
theorem Namespace.get_value (t : Namespace w) (key : String) :
    (t.get key).1.attr.value = ((t.lookup key).map (·.attr.value)).getD "" := by
  unfold Namespace.get
  cases t.lookup key <;> rfl

/-! ## `Table.MatchConstraint` -/

/-- `Table.MatchConstraint` of `attrmeta/table.go`, whose table maps keys to attributes as a
namespace does here, over the constraint's entries in the order `range` visits them. -/
def matchConstraint (t : Namespace w) : List (Σ _ : String, String) → Bool
  | [] => true
  | ⟨key, value⟩ :: rest =>
    if (t.get key).1.attr.value ≠ value then false else matchConstraint t rest

theorem matchConstraint_eq_true (t : Namespace w) (visit : List (Σ _ : String, String)) :
    matchConstraint t visit = true ↔ ∀ entry ∈ visit, (t.get entry.1).1.attr.value = entry.2 := by
  induction visit with
  | nil => simp [matchConstraint]
  | cons entry rest ih =>
    obtain ⟨key, value⟩ := entry
    by_cases same : (t.get key).1.attr.value = value <;> simp [matchConstraint, same, ih]

/-- A table matches a constraint exactly when every key of the constraint has its value in the
table, an absent key counting as the empty value; the order `range` takes does not matter. -/
theorem matchConstraint_iff (t : Namespace w) (constraint : Constraint)
    {visit : List (Σ _ : String, String)} (order : RangeOrder constraint visit) :
    matchConstraint t visit = true ↔ ∀ key value, constraint.lookup key = some value →
      ((t.lookup key).map (·.attr.value)).getD "" = value := by
  simp only [matchConstraint_eq_true, ← Namespace.get_value]
  exact ⟨fun matched key value found => matched ⟨key, value⟩ (order.mem_iff.mpr found),
    fun matched entry mem => matched entry.1 entry.2 (order.mem_iff.mp mem)⟩

theorem matchConstraint_iff_example :
    let t : Namespace 64 := (∅ : Namespace 64).insert "a" ⟨Rinq.set "a" "1", 1, 1⟩
    let constraint : Constraint := ((∅ : Constraint).insert "a" "1").insert "b" ""
    RangeOrder constraint [⟨"b", ""⟩, ⟨"a", "1"⟩] ∧
      (matchConstraint t [⟨"b", ""⟩, ⟨"a", "1"⟩] = true ↔ ∀ key value,
        constraint.lookup key = some value → ((t.lookup key).map (·.attr.value)).getD "" = value) :=
  ⟨by decide, matchConstraint_iff _ _ (by decide)⟩

/-! ## `Namespace.WriteTo` -/

/-- An entry `writeTo` renders: frozen, or with a value. -/
def Attr.Visible (attr : Attr w) : Prop := attr.attr.isFrozen = true ∨ attr.attr.value ≠ ""

instance (attr : Attr w) : Decidable attr.Visible := inferInstanceAs (Decidable (_ ∨ _))

/-- The unexported `Namespace.writeTo`: the entries that are frozen or have a value, in the order
`range` visits them, each but the first after `", "`, appended to `buf`; and whether one was.
`render` is `Attr.WriteTo`, which is not part of the sources. -/
def writeEntries (render : Attr w → String) (buf : String) (notEmpty : Bool) :
    List (Σ _ : String, Attr w) → String × Bool
  | [] => (buf, notEmpty)
  | ⟨_, attr⟩ :: rest =>
    if !attr.attr.isFrozen ∧ attr.attr.value = "" then writeEntries render buf notEmpty rest
    else writeEntries render ((if notEmpty then buf ++ ", " else buf) ++ render attr) true rest

def writeTo (render : Attr w → String) (visit : List (Σ _ : String, Attr w)) (buf : String) :
    String × Bool :=
  ((writeEntries render (buf ++ "\x7b") false visit).1 ++ "\x7d",
    (writeEntries render (buf ++ "\x7b") false visit).2)

def writeWithNameTo (render : Attr w → String) (visit : List (Σ _ : String, Attr w))
    (buf name : String) : String × Bool :=
  ((writeEntries render (buf ++ name ++ "::" ++ "\x7b") false visit).1 ++ "\x7d",
    (writeEntries render (buf ++ name ++ "::" ++ "\x7b") false visit).2)

/-- The renderings `writeEntries` writes, in the order of `visit`. -/
def rendered (render : Attr w → String) (visit : List (Σ _ : String, Attr w)) : List String :=
  (visit.filter fun entry => entry.2.Visible).map fun entry => render entry.2

theorem intercalate_go_append (before after sep : String) (parts : List String) :
    String.intercalate.go (before ++ after) sep parts =
      before ++ String.intercalate.go after sep parts := by
  induction parts generalizing after with
  | nil => rfl
  | cons part parts ih =>
    simp only [String.intercalate.go, String.append_assoc] at ih ⊢
    exact ih _

theorem writeEntries_cons (render : Attr w → String) (buf : String) (notEmpty : Bool)
    (key : String) (attr : Attr w) (rest : List (Σ _ : String, Attr w)) :
    writeEntries render buf notEmpty (⟨key, attr⟩ :: rest) =
      if attr.Visible then
        writeEntries render ((if notEmpty then buf ++ ", " else buf) ++ render attr) true rest
      else writeEntries render buf notEmpty rest := by
  have hidden : ((!attr.attr.isFrozen) = true ∧ attr.attr.value = "") ↔ ¬attr.Visible := by
    simp [Attr.Visible]
  rw [writeEntries]
  by_cases shown : attr.Visible
  · rw [if_neg (hidden.not.mpr (not_not.mpr shown)), if_pos shown]
  · rw [if_pos (hidden.mpr shown), if_neg shown]

theorem rendered_cons (render : Attr w → String) (key : String) (attr : Attr w)
    (rest : List (Σ _ : String, Attr w)) :
    rendered render (⟨key, attr⟩ :: rest) =
      if attr.Visible then render attr :: rendered render rest else rendered render rest := by
  by_cases shown : attr.Visible <;> simp [rendered, List.filter_cons, shown]

theorem writeEntries_true (render : Attr w → String) (buf : String)
    (visit : List (Σ _ : String, Attr w)) :
    writeEntries render buf true visit =
      (String.intercalate.go buf ", " (rendered render visit), true) := by
  induction visit generalizing buf with
  | nil => rfl
  | cons entry rest ih =>
    obtain ⟨key, attr⟩ := entry
    by_cases shown : attr.Visible
    · simp only [writeEntries_cons, rendered_cons, shown, if_true, ih, String.intercalate.go]
    · simp only [writeEntries_cons, rendered_cons, shown, if_false, ih]

theorem writeEntries_false (render : Attr w → String) (buf : String)
    (visit : List (Σ _ : String, Attr w)) :
    writeEntries render buf false visit =
      (buf ++ ", ".intercalate (rendered render visit), !(rendered render visit).isEmpty) := by
  induction visit generalizing buf with
  | nil => simp [writeEntries, rendered, String.intercalate]
  | cons entry rest ih =>
    obtain ⟨key, attr⟩ := entry
    by_cases shown : attr.Visible
    · simp only [writeEntries_cons, rendered_cons, shown, if_true, if_false, Bool.false_eq_true,
        writeEntries_true, String.intercalate, intercalate_go_append, List.isEmpty_cons]
      rfl
    · simp only [writeEntries_cons, rendered_cons, shown, if_false, ih]

theorem writeTo_eq (render : Attr w → String) (visit : List (Σ _ : String, Attr w))
    (buf : String) :
    writeTo render visit buf =
      (buf ++ "\x7b" ++ ", ".intercalate (rendered render visit) ++ "\x7d",
        !(rendered render visit).isEmpty) := by
  simp only [writeTo, writeEntries_false]

theorem writeWithNameTo_eq_writeTo (render : Attr w → String)
    (visit : List (Σ _ : String, Attr w)) (buf name : String) :
    writeWithNameTo render visit buf name = writeTo render visit (buf ++ name ++ "::") := rfl

theorem rendered_ne_nil_iff (render : Attr w → String) {ns : Namespace w}
    {visit : List (Σ _ : String, Attr w)} (order : RangeOrder ns visit) :
    (!(rendered render visit).isEmpty) = true ↔
      ∃ key attr, ns.lookup key = some attr ∧ attr.Visible := by
  simp only [rendered, Bool.not_eq_true', List.isEmpty_eq_false, ne_eq, List.map_eq_nil_iff,
    List.filter_eq_nil_iff, decide_eq_true_eq, not_forall, not_not, exists_prop]
  exact ⟨fun ⟨entry, mem, shown⟩ => ⟨entry.1, entry.2, order.mem_iff.mp mem, shown⟩,
    fun ⟨key, attr, found, shown⟩ => ⟨⟨key, attr⟩, order.mem_iff.mpr found, shown⟩⟩

/-- Whatever order `range` takes, `WriteTo` and `WriteWithNameTo` write the renderings of the
entries that are frozen or have a value, each once, in some order, joined by `", "` inside
braces; and they return true exactly when there is such an entry. -/
theorem writeTo_spec (render : Attr w → String) (ns : Namespace w)
    {visit : List (Σ _ : String, Attr w)} (order : RangeOrder ns visit) (buf name : String) :
    ∃ shown : List (Σ _ : String, Attr w),
      (shown : Multiset (Σ _ : String, Attr w)) = ns.entries.filter (fun entry => entry.2.Visible) ∧
      (writeTo render visit buf).1 =
        buf ++ "\x7b" ++ ", ".intercalate (shown.map fun entry => render entry.2) ++ "\x7d" ∧
      (writeWithNameTo render visit buf name).1 =
        buf ++ name ++ "::\x7b" ++ ", ".intercalate (shown.map fun entry => render entry.2) ++
          "\x7d" ∧
      ((writeTo render visit buf).2 = true ↔ ∃ key attr, ns.lookup key = some attr ∧ attr.Visible) ∧
      ((writeWithNameTo render visit buf name).2 = true ↔
        ∃ key attr, ns.lookup key = some attr ∧ attr.Visible) := by
  refine ⟨visit.filter fun entry => entry.2.Visible, ?_, ?_, ?_, ?_, ?_⟩
  · rw [← order, Multiset.filter_coe]
  · rw [writeTo_eq]; rfl
  · rw [writeWithNameTo_eq_writeTo, writeTo_eq, String.append_assoc (buf ++ name)]; rfl
  · rw [writeTo_eq]; exact rendered_ne_nil_iff render order
  · rw [writeWithNameTo_eq_writeTo, writeTo_eq]; exact rendered_ne_nil_iff render order

theorem writeTo_spec_example :
    let ns : Namespace 64 := (((∅ : Namespace 64).insert "a" ⟨Rinq.set "a" "1", 1, 1⟩).insert "b"
      ⟨Rinq.set "b" "", 2, 2⟩).insert "c" ⟨Rinq.freeze "c" "", 3, 3⟩
    let visit : List (Σ _ : String, Attr 64) :=
      [⟨"b", ⟨Rinq.set "b" "", 2, 2⟩⟩, ⟨"c", ⟨Rinq.freeze "c" "", 3, 3⟩⟩,
        ⟨"a", ⟨Rinq.set "a" "1", 1, 1⟩⟩]
    let render : Attr 64 → String := fun attr => attr.attr.key ++ "=" ++ attr.attr.value
    RangeOrder ns visit ∧ ∃ shown : List (Σ _ : String, Attr 64),
      (shown : Multiset (Σ _ : String, Attr 64)) =
        ns.entries.filter (fun entry => entry.2.Visible) ∧
      (writeTo render visit "").1 =
        "" ++ "\x7b" ++ ", ".intercalate (shown.map fun entry => render entry.2) ++ "\x7d" ∧
      (writeWithNameTo render visit "" "ns").1 =
        "" ++ "ns" ++ "::\x7b" ++ ", ".intercalate (shown.map fun entry => render entry.2) ++
          "\x7d" ∧
      ((writeTo render visit "").2 = true ↔ ∃ key attr, ns.lookup key = some attr ∧ attr.Visible) ∧
      ((writeWithNameTo render visit "" "ns").2 = true ↔
        ∃ key attr, ns.lookup key = some attr ∧ attr.Visible) :=
  ⟨by decide, writeTo_spec _ _ (by decide) "" "ns"⟩

end Attrmeta

end Rinq
