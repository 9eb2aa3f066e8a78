import NavQuery.Plan.Run
import NavQuery.Proofs.Literals

/-!
All rows that a run meets are turned into records, or the run ends in the first failure. A scripted
connection answers each call from a script and keeps the calls that were made.
-/

namespace NavQuery

open List

variable {q : Parameter} {cell : Cell}

/-- Items are taken one after the other: each gives its result, or the first that fails its error. -/
inductive Taken {α β ε : Type} (R : α → Except ε β → Prop) : List α → Except ε (List β) → Prop
  | all {l : List α} {bs : List β} (h : Forall₂ (fun a b => R a (.ok b)) l bs) : Taken R l (.ok bs)
  | failed {l r : List α} {a : α} {bs : List β} {e : ε}
      (h : Forall₂ (fun a b => R a (.ok b)) l bs) (ha : R a (.error e)) : Taken R (l ++ a :: r) (.error e)

lemma taken_mapM {α β ε : Type} {R : α → Except ε β → Prop} {f : α → Except ε β} {l : List α}
    (h : ∀ a ∈ l, R a (f a)) : Taken R l (l.mapM f) := by
  induction l with
  | nil => exact .all .nil
  | cons a l ih =>
    obtain ⟨ha, hl⟩ := forall_mem_cons.1 h
    rw [mapM_cons]
    cases hf : f a with
    | error e => exact .failed (l := []) .nil (hf ▸ ha)
    | ok b =>
      rw [hf] at ha
      have htaken := ih hl
      generalize l.mapM f = r at htaken ⊢
      cases htaken with
      | all hall => exact .all (.cons ha hall)
      | failed hbefore hfail => exact .failed (l := a :: _) (.cons ha hbefore) hfail

namespace Domain

/-- What a cell gives: null, its value, or the fault of a text that spells none. -/
inductive Converts (d : Domain) : Cell → Result Value → Prop
  | null : Converts d none (.ok .null)
  | value {t : Text} {v : Value} (h : d.readCell t = .ok v) : Converts d (some t) (.ok v)
  | unreadable {t : Text} {fault : Fault} (h : d.readCell t = .error fault) :
      Converts d (some t) (.error (.engine (.unreadable fault)))

end Domain

/-- The cell that is sent for a parameter. -/
inductive Parameter.Sends (q : Parameter) : Cell → Prop
  | null (h : q.value = .null) : q.Sends none
  | value {t : Text} (h : (q.domain.getD .untyped).write q.value = .ok t) : q.Sends (some t)

/-- The parameter has no value or one of its domain. -/
def Parameter.Ranges (q : Parameter) : Prop :=
  q.value = .null ∨ (q.domain.getD .untyped).Ranges q.value

lemma Parameter.sends_of_cell (h : q.cell = .ok cell) : q.Sends cell := by
  unfold Parameter.cell at h
  split at h
  next hnull =>
    cases h
    exact .null (by cases hq : q.value <;> simp_all [Value.isNull])
  next =>
    obtain ⟨t, ht, h⟩ := exists_of_bind_eq_ok h
    cases h
    exact .value ht

lemma Parameter.Ranges.exists_cell (h : q.Ranges) : ∃ cell, q.cell = .ok cell := by
  unfold Parameter.cell
  obtain h | h := h
  · exact ⟨none, by rw [h]; rfl⟩
  · obtain ⟨t, ht, -⟩ := Domain.exists_write_read _ h
    exact ⟨some t, by rw [Domain.isNull_of_ranges h, ht]; rfl⟩

/-- The connection that answers by a script and keeps the calls. -/
def Connection.scripted (canRead : Bool) (script : Call → Delivery) :
    Connection (StateM (List Call)) :=
  ⟨canRead, fun call => do
    modify (· ++ [call])
    return script call⟩

lemma Delivery.rows_cases (d : Delivery) : (∃ rows, d = ofRows rows .done ∧ d.rows = .ok rows) ∨
    ∃ rows message, d = ofRows rows (.failed message) ∧ d.rows = .error message := by
  induction d with
  | done => exact .inl ⟨[], rfl, rfl⟩
  | failed message => exact .inr ⟨[], message, rfl, rfl⟩
  | row cells rest ih =>
    obtain ⟨rows, hrest, hrows⟩ | ⟨rows, message, hrest, hrows⟩ := ih
    · exact .inl ⟨cells :: rows, congrArg _ hrest, by rw [Delivery.rows, hrows]; rfl⟩
    · exact .inr ⟨cells :: rows, message, congrArg _ hrest, by rw [Delivery.rows, hrows]; rfl⟩

namespace Plan

variable {p : Plan}

/-- What a row gives: a record with the converted cell of each output, or the failure of the row. -/
inductive Converts (p : Plan) (cells : List Cell) : Result (List Value) → Prop
  | columns (h : cells.length ≠ p.domains.length) :
      p.Converts cells (.error (.engine (.columnCount p.domains.length cells.length)))
  | fields {r : Result (List Value)} (h : cells.length = p.domains.length)
      (hr : Taken (fun output r => ∃ cell, cells[output.1]? = some cell ∧ output.2.domain.Converts cell r)
        (p.outputs.zip p.profile.fields) r)
      (hlength : ∀ record, r = .ok record → record.length = p.outputs.length) : p.Converts cells r

/-- What is made of a delivery. -/
inductive Delivers (p : Plan) : Delivery → Result Product → Prop
  | failed (rows : List (List Cell)) (message : Text) :
      p.Delivers (.ofRows rows (.failed message)) (.error (.engine (.reported message)))
  | empty : p.Delivers .done (.ok ⟨p.profile, none⟩)
  | rows {rows : List (List Cell)} {r : Result (List (List Value))} (hrows : rows ≠ [])
      (h : Taken p.Converts rows r) :
      p.Delivers (.ofRows rows .done) (r.map fun records => ⟨p.profile, some records⟩)

lemma converts_fieldValue {cells : List Cell} {column : Nat} (d : Domain)
    (h : cells[column]? = some cell) : d.Converts cell (fieldValue cells column d) := by
  unfold fieldValue
  rw [h]
  cases cell with
  | none => exact .null
  | some t =>
    change d.Converts (some t) ((d.readCell t).mapError _)
    cases hread : d.readCell t with
    | error fault => exact .unreadable hread
    | ok v => exact .value hread

lemma converts_record (hfields : p.outputs.length ≤ p.profile.fields.length)
    (houtputs : ∀ i ∈ p.outputs, i < p.domains.length) (cells : List Cell) :
    p.Converts cells (p.record cells) := by
  unfold record
  split
  next hlength =>
    refine .fields hlength (taken_mapM fun output houtput => ?_) fun record hrecord => ?_
    · have hcolumn := getElem?_eq_getElem (hlength ▸ houtputs _ (of_mem_zip houtput).1)
      exact ⟨_, hcolumn, converts_fieldValue _ hcolumn⟩
    · rw [← (forall₂_of_mapM_eq_ok hrecord).length_eq]
      simpa using hfields
  next hlength => exact .columns hlength

lemma delivers_product (hfields : p.outputs.length ≤ p.profile.fields.length)
    (houtputs : ∀ i ∈ p.outputs, i < p.domains.length) (d : Delivery) :
    p.Delivers d (p.product d) := by
  unfold product
  obtain ⟨rows, rfl, hrows⟩ | ⟨rows, message, rfl, hrows⟩ := d.rows_cases
  · rw [hrows]
    change p.Delivers _ (if rows.isEmpty then _ else _)
    cases rows with
    | nil => exact .empty
    | cons cells rows =>
      have htaken : Taken p.Converts (cells :: rows) ((cells :: rows).mapM p.record) :=
        taken_mapM fun cells _ => converts_record hfields houtputs cells
      convert Delivers.rows (cons_ne_nil cells rows) htaken using 1
      cases (cells :: rows).mapM p.record <;> rfl
  · rw [hrows]
    exact .failed rows message

lemma exists_arguments {e : Environment}
    (hbound : ∀ h ∈ p.placeholders, ∃ q, e.lookup h.name = some q ∧ q.Ranges) :
    ∃ cells, p.arguments e = .ok cells ∧
      Forall₂ (fun h cell => ∃ q, e.lookup h.name = some q ∧ q.Sends cell) p.placeholders cells := by
  obtain ⟨cells, hcells⟩ : ∃ cells, p.arguments e = .ok cells := by
    refine exists_mapM_eq_ok _ fun h hh => ?_
    obtain ⟨q, hq, hranges⟩ := hbound h hh
    obtain ⟨cell, hcell⟩ := hranges.exists_cell
    exact ⟨cell, by rw [hq]; exact hcell⟩
  refine ⟨cells, hcells, (forall₂_of_mapM_eq_ok hcells).imp fun h cell hcell => ?_⟩
  cases hq : e.lookup h.name with
  | none =>
    rw [hq] at hcell
    cases hcell
  | some q =>
    rw [hq] at hcell
    exact ⟨q, rfl, q.sends_of_cell hcell⟩

theorem run_scripted {e : Environment} (hfields : p.outputs.length ≤ p.profile.fields.length)
    (houtputs : ∀ i ∈ p.outputs, i < p.domains.length)
    (hbound : ∀ h ∈ p.placeholders, ∃ q, e.lookup h.name = some q ∧ q.Ranges)
    (canRead : Bool) (script : Call → Delivery) (log : List Call) :
    let answer := (p.run e (.scripted canRead script)).run log
    (p.sql = [] → answer = (.ok ⟨p.profile, none⟩, log)) ∧
    (p.sql ≠ [] → canRead = false → answer = (.error .permission, log)) ∧
    (p.sql ≠ [] → canRead = true → ∃ cells,
      Forall₂ (fun h cell => ∃ q, e.lookup h.name = some q ∧ q.Sends cell) p.placeholders cells ∧
        p.Delivers (script ⟨p.sql, cells⟩) answer.1 ∧ answer.2 = log ++ [⟨p.sql, cells⟩]) := by
  refine ⟨fun hsql => ?_, fun hsql hread => ?_, fun hsql hread => ?_⟩
  · rw [run, if_pos (isEmpty_iff.2 hsql)]
    rfl
  · subst hread
    rw [run, if_neg (mt List.isEmpty_iff.1 hsql)]
    rfl
  · obtain ⟨cells, harguments, hcells⟩ := exists_arguments hbound
    subst hread
    refine ⟨cells, hcells, ?_⟩
    rw [run, if_neg (mt List.isEmpty_iff.1 hsql), harguments]
    exact ⟨delivers_product hfields houtputs _, rfl⟩

/-- A row that can be read is followed by one that cannot. -/
theorem run_scripted_second_row :
    let p : Plan := ⟨"SELECT", [.boolean, .integer], [⟨1, "no", .integer⟩],
      ⟨"school", [⟨"no", .integer⟩, ⟨"open", .boolean⟩]⟩, [1, 0]⟩
    let e : Environment := [("no", ⟨.integer 7, some .integer⟩)]
    let script (_ : Call) : Delivery := .ofRows [[some "t", some "7"], [none, some "x"]] .done
    (∀ h ∈ p.placeholders, ∃ q, e.lookup h.name = some q ∧ q.Ranges) ∧
      ∃ cells, Forall₂ (fun h cell => ∃ q, e.lookup h.name = some q ∧ q.Sends cell) p.placeholders cells ∧
        p.Delivers (script ⟨p.sql, cells⟩) ((p.run e (.scripted true script)).run []).1 ∧
          ((p.run e (.scripted true script)).run []).2 = [⟨p.sql, cells⟩] := by
  intro p e script
  have hbound : ∀ h ∈ p.placeholders, ∃ q, e.lookup h.name = some q ∧ q.Ranges :=
    forall_mem_singleton.2 ⟨_, rfl, .inr trivial⟩
  exact ⟨hbound, (run_scripted (by decide) (by decide) hbound true script []).2.2 nofun rfl⟩

end Plan

end NavQuery
