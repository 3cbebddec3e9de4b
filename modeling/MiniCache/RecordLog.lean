import Mathlib.Data.List.Basic
import Mathlib.Order.Nat
import Mathlib.Tactic.SplitIfs

/-!
# Logs of records

A log is the concatenation of the encodings of its records.  The file describes
what a cut of a log at any length leaves, and the scan of a log by a reader that
takes one record at a time.
-/

namespace RecordLog

variable {α β ι ε : Type*}

section Cut

/-- A prefix that stops short of the end. -/
def ProperPrefix (part whole : List β) : Prop := part <+: whole ∧ part ≠ whole

/-- A proper prefix of two parts ends in the first or in the second. -/
theorem ProperPrefix.append_cases {part first second : List β}
    (proper : ProperPrefix part (first ++ second)) :
    ProperPrefix part first ∨
      ∃ tail, part = first ++ tail ∧ ProperPrefix tail second := by
  obtain ⟨isPrefix, different⟩ := proper
  rcases le_total part.length first.length with shorter | longer
  · have inFirst : part <+: first :=
      List.prefix_of_prefix_length_le isPrefix (List.prefix_append ..) shorter
    by_cases whole : part = first
    · subst whole
      refine Or.inr ⟨[], (List.append_nil part).symm, List.nil_prefix, ?_⟩
      rintro rfl
      exact different (List.append_nil part).symm
    · exact Or.inl ⟨inFirst, whole⟩
  · obtain ⟨tail, rfl⟩ :=
      List.prefix_of_prefix_length_le (List.prefix_append first second) isPrefix longer
    refine Or.inr ⟨tail, rfl, (List.prefix_append_right_inj first).mp isPrefix, ?_⟩
    rintro rfl
    exact different rfl

theorem ProperPrefix.length_lt {part whole : List β}
    (proper : ProperPrefix part whole) : part.length < whole.length :=
  lt_of_le_of_ne proper.1.length_le fun same =>
    proper.2 (List.IsPrefix.eq_of_length proper.1 same)

theorem properPrefix_take {length : Nat} {whole : List β}
    (short : length < whole.length) : ProperPrefix (whole.take length) whole := by
  refine ⟨List.take_prefix length whole, ?_⟩
  intro same
  have lengths := congrArg List.length same
  rw [List.length_take] at lengths
  omega

variable (encode : α → List β)

/-- The records whose encodings lie wholly inside the first bytes of a log. -/
def wholeRecords (length : Nat) : List α → List α
  | [] => []
  | record :: rest =>
      if (encode record).length ≤ length then
        record :: wholeRecords (length - (encode record).length) rest
      else
        []

theorem wholeRecords_prefix (length : Nat) (records : List α) :
    wholeRecords encode length records <+: records := by
  induction records generalizing length with
  | nil => exact List.nil_prefix
  | cons record rest ih =>
      unfold wholeRecords
      split_ifs
      · exact (List.prefix_cons_inj record).mpr (ih _)
      · exact List.nil_prefix

/-- A cut after the first records leaves them and cuts the others. -/
theorem wholeRecords_append {length : Nat} {first second : List α}
    (inside : (first.flatMap encode).length ≤ length) :
    wholeRecords encode length (first ++ second) =
      first ++ wholeRecords encode (length - (first.flatMap encode).length) second := by
  induction first generalizing length with
  | nil => rfl
  | cons record rest ih =>
      rw [List.flatMap_cons, List.length_append] at inside ⊢
      rw [List.cons_append, wholeRecords, if_pos (by omega), ih (by omega), List.cons_append,
        Nat.sub_sub]

theorem wholeRecords_cons_of_lt {length : Nat} {record : α}
    (cut : length < (encode record).length) (rest : List α) :
    wholeRecords encode length (record :: rest) = [] :=
  if_neg (Nat.not_le_of_gt cut)

/-- What is left of the record that a cut goes through. -/
def Torn (records : List α) (torn : List β) : Prop :=
  torn = [] ∨ ∃ record ∈ records, ProperPrefix torn (encode record)

/-- A cut log is its whole records and part of the next one. -/
theorem take_log (length : Nat) (records : List α) :
    ∃ torn, (records.flatMap encode).take length =
        (wholeRecords encode length records).flatMap encode ++ torn ∧
      Torn encode records torn := by
  induction records generalizing length with
  | nil => exact ⟨[], by simp [wholeRecords], Or.inl rfl⟩
  | cons record rest ih =>
      unfold wholeRecords
      rw [List.flatMap_cons]
      split_ifs with whole
      · obtain ⟨torn, cut, isTorn⟩ := ih (length - (encode record).length)
        refine ⟨torn, ?_, ?_⟩
        · rw [List.take_append, List.take_of_length_le whole, cut,
            List.flatMap_cons, List.append_assoc]
        · rcases isTorn with empty | ⟨other, member, proper⟩
          · exact Or.inl empty
          · exact Or.inr ⟨other, List.mem_cons_of_mem _ member, proper⟩
      · refine ⟨(encode record).take length, ?_, Or.inr ⟨record, List.mem_cons_self .., ?_⟩⟩
        · rw [List.take_append_of_le_length (Nat.le_of_not_le whole)]
          rfl
        · exact properPrefix_take (Nat.lt_of_not_le whole)

end Cut

section Scan

variable (read : List β → Except ε (Option ι × List β))

/-- The records that a reader takes from a log one after another, what it leaves
of the log, and the error it stops on, if any. -/
inductive Scan : List β → List ι → List β → Option ε → Prop
  | finished {input rest : List β} :
      read input = .ok (none, rest) → Scan input [] input none
  | stopped {input : List β} {error : ε} :
      read input = .error error → Scan input [] input (some error)
  | record {input rest left : List β} {item : ι} {items : List ι} {stop : Option ε} :
      read input = .ok (some item, rest) → Scan rest items left stop →
        Scan input (item :: items) left stop

variable {read}

/-- A scan has one outcome. -/
theorem Scan.unique {input left otherLeft : List β} {items otherItems : List ι}
    {stop otherStop : Option ε} (scan : Scan read input items left stop)
    (other : Scan read input otherItems otherLeft otherStop) :
    items = otherItems ∧ left = otherLeft ∧ stop = otherStop := by
  induction scan generalizing otherItems with
  | finished done =>
      cases other with
      | finished => exact ⟨rfl, rfl, rfl⟩
      | stopped otherDone => rw [done] at otherDone; cases otherDone
      | record otherDone => rw [done] at otherDone; cases otherDone
  | stopped done =>
      cases other with
      | finished otherDone => rw [done] at otherDone; cases otherDone
      | stopped otherDone => rw [done] at otherDone; cases otherDone; exact ⟨rfl, rfl, rfl⟩
      | record otherDone => rw [done] at otherDone; cases otherDone
  | record done _ ih =>
      cases other with
      | finished otherDone => rw [done] at otherDone; cases otherDone
      | stopped otherDone => rw [done] at otherDone; cases otherDone
      | record otherDone otherScan =>
          rw [done] at otherDone
          cases otherDone
          obtain ⟨rfl, rfl, rfl⟩ := ih otherScan
          exact ⟨rfl, rfl, rfl⟩

/-- A reader that always moves on scans every log. -/
theorem exists_scan
    (moves : ∀ {input rest item}, read input = .ok (some item, rest) →
      rest.length < input.length) (input : List β) :
    ∃ items left stop, Scan read input items left stop := by
  match outcome : read input with
  | .error error => exact ⟨[], input, some error, .stopped outcome⟩
  | .ok (none, rest) => exact ⟨[], input, none, .finished outcome⟩
  | .ok (some item, rest) =>
      have shorter := moves outcome
      obtain ⟨items, left, stop, scan⟩ := exists_scan moves rest
      exact ⟨item :: items, left, stop, .record outcome scan⟩
termination_by input.length

/-- The reader takes apart what was encoded, down to what is left over. -/
theorem scan_log {encode : α → List β} {image : α → ι} {records : List α}
    (reads : ∀ record ∈ records, ∀ rest,
      read (encode record ++ rest) = .ok (some (image record), rest))
    {torn : List β} {stop : Option ε} (ends : Scan read torn [] torn stop) :
    Scan read (records.flatMap encode ++ torn) (records.map image) torn stop := by
  induction records with
  | nil => exact ends
  | cons record rest ih =>
      rw [List.flatMap_cons, List.append_assoc]
      exact Scan.record (reads record (List.mem_cons_self ..) _)
        (ih fun other member => reads other (List.mem_cons_of_mem _ member))

end Scan

end RecordLog
