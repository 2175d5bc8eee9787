/-
# Which addresses are shown

The labels are written with a counter that is carried from line to line. Here the columns of a
listing are described without it: whether an address is shown depends on the policy of its line, on
what is referred to, and on how many lines of the same kind right before it have their addresses
hidden (`hiddenRun`). The counter holds that number at every line (`Counts`).
-/

import Disassembly.Labels

namespace Disassembly

/-- Whether the column hides an address. -/
def AddressColumn.isHidden : AddressColumn → Bool
  | hidden _ => true
  | absent | shown _ => false

namespace Labels

/-- A line with its address column. -/
abbrev Row := Line × AddressColumn

/-- The marker of a row, with the column. Rows without a marker have none. -/
def marked (row : Row) : Option (Marker × AddressColumn) := row.1.marker.map (·, row.2)

/-- Whether the address is hidden, on a line of the given kind. -/
def isHiddenAs (data : Bool) (row : Marker × AddressColumn) : Bool :=
  row.2.isHidden && row.1.data = data

/-- The number of hidden addresses in a row right before a line of the given kind, code or data.
Lines without a marker do not count. -/
def hiddenRun (data : Bool) (before : List Row) : Nat :=
  ((before.filterMap marked).reverse.takeWhile (isHiddenAs data)).length

/-- Whether the address of a line with the given rows before it is to be shown. -/
def Wanted (referred : UInt16 → Prop) (before : List Row) (m : Marker) : Prop :=
  match m.labels with
  | .all => True
  | .never => False
  | .referenced =>
    referred m.address ∨ (0 < m.period.toNat ∧ m.period.toNat ≤ hiddenRun m.data before)

/-- Whether a row has the column that it should have: none without a marker, and otherwise the
address if it is wanted, and blanks if not. -/
def IsLabelled (referred : UInt16 → Prop) (before : List Row) (row : Row) : Prop :=
  match row.1.marker with
  | none => row.2 = .absent
  | some m => (Wanted referred before m ∧ row.2 = .ofShown m) ∨
      (¬Wanted referred before m ∧ row.2 = .ofHidden m)

variable {references : Std.TreeSet UInt16} {c : Counter} {before : List Row} {data : Bool}

/-- The counter holds the number of hidden addresses right before, for either kind. -/
def Counts (before : List Row) (c : Counter) : Prop :=
  ∀ data, (if c.lastData = some data then c.unlabelled else 0) = hiddenRun data before

/-- A line without a marker leaves the run as it is. -/
theorem hiddenRun_unmarked {line : Line} (h : line.marker = none) (column : AddressColumn) :
    hiddenRun data (before ++ [(line, column)]) = hiddenRun data before := by
  rw [hiddenRun, List.filterMap_append, List.filterMap_cons, marked, h]
  simp [hiddenRun]

/-- A line with a marker adds to the run if its address is hidden and it is of the same kind, and
ends it otherwise. -/
theorem hiddenRun_marked {line : Line} {m : Marker} (h : line.marker = some m)
    (column : AddressColumn) : hiddenRun data (before ++ [(line, column)]) =
      if isHiddenAs data (m, column) then hiddenRun data before + 1 else 0 := by
  rw [hiddenRun, List.filterMap_append, List.filterMap_cons, marked, h]
  simp only [Option.map_some, List.filterMap_nil, List.reverse_append, List.reverse_singleton,
    List.singleton_append, List.takeWhile_cons]
  split <;> rfl

/-- Before a line the counter holds the run that the line looks at. -/
theorem Counts.enter (h : Counts before c) (m : Marker) :
    (c.enter m).unlabelled = hiddenRun m.data before ∧ (c.enter m).lastData = some m.data := by
  have hm := h m.data
  unfold Counter.enter
  split
  · rename_i hlast
    rw [if_pos hlast] at hm
    exact ⟨hm, hlast⟩
  · rename_i hlast
    rw [if_neg hlast] at hm
    exact ⟨hm, rfl⟩

/-- The test of the walk's labels is whether the address is wanted. -/
theorem Counts.isShown_iff {referred : UInt16 → Prop}
    (hreferred : ∀ a, a ∈ references ↔ referred a) (h : Counts before c) (m : Marker) :
    isShown references (c.enter m) m = true ↔ Wanted referred before m := by
  unfold isShown Wanted
  cases m.labels with
  | all => simp
  | never => simp
  | referenced =>
    have hperiod : (0 : UInt8) < m.period ↔ 0 < m.period.toNat := UInt8.lt_iff_toNat_lt
    simp only [Bool.or_eq_true, Bool.and_eq_true, decide_eq_true_eq, Std.TreeSet.contains_iff_mem,
      hreferred, (h.enter m).1, hperiod]

/-- **One line keeps count**, and gets the column that it should have. -/
theorem Counts.column {referred : UInt16 → Prop}
    (hreferred : ∀ a, a ∈ references ↔ referred a) (h : Counts before c) (line : Line) :
    IsLabelled referred before (line, (column references c line.marker).1) ∧
      Counts (before ++ [(line, (column references c line.marker).1)])
        (column references c line.marker).2 := by
  cases hmarker : line.marker with
  | none =>
    refine ⟨by rw [IsLabelled, hmarker]; rfl, fun data => ?_⟩
    rw [hiddenRun_unmarked hmarker]
    exact h data
  | some m =>
    obtain ⟨hrun, hlast⟩ := h.enter m
    have hshown := h.isShown_iff hreferred m
    cases hyes : isShown references (c.enter m) m with
    | true =>
      have hcolumn : Labels.column references c (some m) =
          (.ofShown m, { c.enter m with unlabelled := 0 }) := by
        simp only [Labels.column, hyes, if_true]
      rw [hcolumn]
      refine ⟨?_, fun data => ?_⟩
      · rw [IsLabelled, hmarker]
        exact .inl ⟨hshown.1 hyes, rfl⟩
      · rw [hiddenRun_marked hmarker, ite_self]
        rfl
    | false =>
      have hcolumn : Labels.column references c (some m) =
          (.ofHidden m, { c.enter m with unlabelled := (c.enter m).unlabelled + 1 }) := by
        simp only [Labels.column, hyes, Bool.false_eq_true, if_false]
      rw [hcolumn]
      refine ⟨?_, fun data => ?_⟩
      · rw [IsLabelled, hmarker]
        refine .inr ⟨fun hwanted => ?_, rfl⟩
        rw [hshown.2 hwanted] at hyes
        exact absurd hyes (by decide)
      · rw [hiddenRun_marked hmarker, hlast, hrun]
        by_cases hdata : m.data = data
        · subst hdata
          simp [isHiddenAs, AddressColumn.ofHidden, AddressColumn.isHidden]
        · simp [isHiddenAs, hdata]

theorem length_columns (references : Std.TreeSet UInt16) (c : Counter) (lines : List Line) :
    (columns references c lines).length = lines.length := by
  induction lines generalizing c with
  | nil => rfl
  | cons line lines ih => rw [columns, List.length_cons, List.length_cons, ih]

/-- **Every line gets the column that it should have.** The counter is carried through the lines, so
the induction is on the lines left, and the rows before them grow. -/
theorem Counts.columns {referred : UInt16 → Prop}
    (hreferred : ∀ a, a ∈ references ↔ referred a) (h : Counts before c) (lines : List Line)
    {rows rows' : List Row} {row : Row}
    (hrows : lines.zip (columns references c lines) = rows ++ row :: rows') :
    IsLabelled referred (before ++ rows) row := by
  induction lines generalizing c before rows with
  | nil => exact absurd hrows (by simp)
  | cons line lines ih =>
    obtain ⟨hrow, hcounts⟩ := h.column hreferred line
    rw [Labels.columns, List.zip_cons_cons] at hrows
    cases rows with
    | nil =>
      obtain ⟨rfl, -⟩ := List.cons.inj hrows
      rw [List.append_nil]
      exact hrow
    | cons row' rows =>
      obtain ⟨rfl, hrest⟩ := List.cons.inj hrows
      rw [List.append_cons]
      exact ih hcounts hrest

/-- Before the first line nothing is hidden. -/
theorem counts_nil : Counts [] {} := by
  intro data
  rfl

end Labels
end Disassembly
