import Mathlib.Data.List.Basic
import ClassGauge.Proofs.Json.Values
import ClassGauge.Report.Json

/-! # Reading records back

The text of a list of records holds each record as an object, with a field for each of its values.
Nothing is lost on the way: the records can be had back from their text.

* `read?_writeAll`: the text of a list of records is the text of an array of their objects;
* `ofJson?_jsonFields`: the object of a record describes the record, as long as its numbers are of
  64 bits;
* `readAll?_writeAll`: a list of records is read back from its text, and no other has that text.
-/

namespace ClassGauge.Record

open Json

def jsonFields (r : Record) : List (String × Value) :=
  [("className", .string r.className), ("filePath", .string r.filePath)] ++
    Metric.all.map fun m => (m.key, .natural (m.value r))

/-! ## The text of a list of records -/

/-- Each field is written under its key, in a form that can be read back. -/
theorem forall₂_writtenFields (depth : Nat) (r : Record) :
    List.Forall₂ (fun (key, written) (key', v) =>
        key = key' ∧ Reads (readValue depth) written.toList v)
      r.writtenFields r.jsonFields := by
  refine .cons ⟨rfl, reads_quote depth r.className⟩ (.cons ⟨rfl, reads_quote depth r.filePath⟩ ?_)
  refine List.forall₂_map_left_iff.mpr (List.forall₂_map_right_iff.mpr (List.forall₂_same.mpr ?_))
  intro m _
  exact ⟨rfl, reads_toString depth (m.value r)⟩

/-- A field is read back from its line. -/
theorem reads_line {depth : Nat} {written : String} {v : Value}
    (h : Reads (readValue depth) written.toList v) (key : String) :
    Reads (readField (readValue depth)) ("    " ++ quote key ++ ": " ++ written).toList
      (key, v) := by
  have hline : ("    " ++ quote key ++ ": " ++ written).toList =
      indent 4 ((quote key).toList ++ ':' :: ' ' :: written.toList) := by
    simp [String.toList_append, indent, List.replicate]
  rw [hline]
  exact (h.field key).indent 4

/-- A record is read back as the object with its fields. -/
theorem reads_writeObject (depth : Nat) (r : Record) :
    Reads (readValue (depth + 1)) r.writeObject.toList (.object r.jsonFields) := by
  unfold writeObject
  extract_lets lines
  have hlines : List.Forall₂ (Reads (readField (readValue depth))) (lines.map String.toList)
      r.jsonFields := by
    rw [List.forall₂_map_left_iff, List.forall₂_map_left_iff]
    refine (forall₂_writtenFields depth r).imp ?_
    rintro ⟨key, written⟩ ⟨_, v⟩ ⟨rfl, hv⟩
    exact reads_line hv key
  have hne : lines.map String.toList ≠ [] := by
    intro h
    cases h
  -- Line breaks and indentation are blanks around the fields.
  have htext : ("  \x7b\n" ++ ",\n".intercalate lines ++ "\n  \x7d").toList =
      indent 2 ('\x7b' :: '\n' :: ([',', '\n'].intercalate (lines.map String.toList) ++
        '\n' :: indent 2 ['\x7d'])) := by
    simp [String.toList_append, String.toList_intercalate, indent, List.replicate]
  rw [htext]
  exact (reads_object hlines hne 2).indent 2

/-- The text of a list of records holds the array of their objects. -/
theorem read?_writeAll (records : List Record) :
    read? (writeAll records) = some (.array (records.map fun r => .object r.jsonFields)) := by
  by_cases hempty : records = []
  · subst hempty
    rfl
  · -- The array and the objects in it take up two levels of nesting.
    have hitems : List.Forall₂ (Reads (readValue 126))
        ((records.map writeObject).map String.toList)
        (records.map fun r => .object r.jsonFields) := by
      rw [List.forall₂_map_left_iff, List.forall₂_map_left_iff, List.forall₂_map_right_iff,
        List.forall₂_same]
      intro r _
      exact reads_writeObject 125 r
    have hne : (records.map writeObject).map String.toList ≠ [] := by
      simpa using hempty
    have harray := reads_array hitems hne 0 ['\n'] (stops_newline [])
    have htext : (writeAll records).toList =
        '[' :: '\n' :: ([',', '\n'].intercalate ((records.map writeObject).map String.toList) ++
          '\n' :: indent 0 [']']) ++ ['\n'] := by
      simp [writeAll, hempty, String.toList_append, String.toList_intercalate, indent]
    rw [read?, htext, nestingLimit, harray]
    rfl

/-! ## The record in an object -/

/-- The value under a key of an object in which no key occurs twice. -/
theorem single?_of_mem {fields : List (String × Value)} (hnodup : (fields.map Prod.fst).Nodup)
    {key : String} {v : Value} (h : (key, v) ∈ fields) : single? fields key = some v := by
  have hfilter : fields.filter (·.1 = key) = [(key, v)] := by
    induction fields with
    | nil => cases h
    | cons field fields ih =>
      rw [List.map_cons, List.nodup_cons] at hnodup
      obtain ⟨hfresh, hnodup⟩ := hnodup
      rcases List.mem_cons.mp h with rfl | h
      · -- No other field has the key of the first one.
        have hnone : fields.filter (·.1 = key) = [] := by
          rw [List.filter_eq_nil_iff]
          intro other hother hkey
          exact hfresh (List.mem_map.mpr ⟨other, hother, of_decide_eq_true hkey⟩)
        rw [List.filter_cons_of_pos (by simp), hnone]
      · have hkey : field.1 ≠ key := by
          intro hkey
          exact hfresh (List.mem_map.mpr ⟨_, h, hkey.symm⟩)
        rw [List.filter_cons_of_neg (by simpa using hkey), ih hnodup h]
  rw [single?, hfilter]

theorem nodup_keys_jsonFields (r : Record) : (r.jsonFields.map Prod.fst).Nodup := by
  have hkeys : r.jsonFields.map Prod.fst = "className" :: "filePath" :: Metric.all.map Metric.key :=
    rfl
  rw [hkeys]
  decide

theorem single?_jsonFields {r : Record} {key : String} {v : Value}
    (h : (key, v) ∈ r.jsonFields) : single? r.jsonFields key = some v :=
  single?_of_mem (nodup_keys_jsonFields r) h

theorem textField?_className (r : Record) :
    textField? r.jsonFields "className" = some r.className := by
  have hmem : ("className", Value.string r.className) ∈ r.jsonFields := List.mem_cons_self
  rw [textField?, single?_jsonFields hmem]

theorem textField?_filePath (r : Record) :
    textField? r.jsonFields "filePath" = some r.filePath := by
  have hmem : ("filePath", Value.string r.filePath) ∈ r.jsonFields :=
    List.mem_cons_of_mem _ List.mem_cons_self
  rw [textField?, single?_jsonFields hmem]

/-- All numbers of the record are numbers of 64 bits. -/
def Fits (r : Record) : Prop :=
  ∀ m : Metric, m.value r < numberLimit

theorem Fits.numberField? {r : Record} (h : r.Fits) (m : Metric) :
    numberField? r.jsonFields m.key = some (m.value r) := by
  have hmem : (m.key, Value.natural (m.value r)) ∈ r.jsonFields :=
    List.mem_append_right _ (List.mem_map.mpr ⟨m, m.mem_all, rfl⟩)
  rw [Record.numberField?, single?_jsonFields hmem, Option.bind_some, number?, if_pos (h m)]

/-- A record is made of its texts and the list of its numbers. -/
theorem ofNumbers_value (r : Record) :
    ofNumbers r.className r.filePath (Metric.all.map fun m => (m, m.value r)) = r := by
  have hvalue : ∀ m : Metric,
      ((Metric.all.map fun m => (m, m.value r)).lookup m).getD 0 = m.value r := by
    intro m
    rw [List.lookup_graph (fun m : Metric => m.value r) m.mem_all, Option.getD_some]
  rw [ofNumbers, funext hvalue, ofValues_value]

/-- A record is what the object with its fields describes. -/
theorem ofJson?_jsonFields {r : Record} (h : r.Fits) :
    ofJson? (.object r.jsonFields) = some r := by
  have hnumbers : (Metric.all.mapM fun m => (numberField? r.jsonFields m.key).map (m, ·)) =
      some (Metric.all.map fun m => (m, m.value r)) := by
    simp only [h.numberField?, Option.map_some]
    exact List.mapM_pure
  rw [ofJson?, textField?_className, textField?_filePath]
  simp only [hnumbers, Option.bind_eq_bind, Option.bind_some, ofNumbers_value]
  rfl

/-- Records with the same fields are the same. -/
theorem jsonFields_injective : Function.Injective jsonFields := by
  intro r s h
  obtain ⟨htexts, hnumbers⟩ := List.append_inj h rfl
  have hclassName : r.className = s.className := by
    simp only [List.cons.injEq, Prod.mk.injEq, Value.string.injEq, true_and] at htexts
    exact htexts.1
  have hfilePath : r.filePath = s.filePath := by
    simp only [List.cons.injEq, Prod.mk.injEq, Value.string.injEq, true_and] at htexts
    exact htexts.2.1
  have hvalue : ∀ m : Metric, m.value r = m.value s := by
    intro m
    have hfield := List.map_inj_left.mp hnumbers m m.mem_all
    simpa using hfield
  rw [← ofValues_value r, ← ofValues_value s, hclassName, hfilePath, funext hvalue]

/-! ## A list of records and its text -/

/-- Different lists of records have different texts. -/
theorem writeAll_injective : Function.Injective writeAll := by
  intro records others h
  have hread := congrArg read? h
  rw [read?_writeAll, read?_writeAll, Option.some_inj, Value.array.injEq] at hread
  refine List.map_injective_iff.mpr ?_ hread
  intro r s hrs
  exact jsonFields_injective (Value.object.inj hrs)

/-- The objects of records describe the records, one by one. -/
theorem mapM_ofJson? {records : List Record} (h : ∀ r ∈ records, r.Fits) :
    (records.map fun r => Value.object r.jsonFields).mapM ofJson? = some records := by
  induction records with
  | nil => rfl
  | cons r records ih =>
    have hr := ofJson?_jsonFields (h r List.mem_cons_self)
    have hrecords := ih fun s hs => h s (List.mem_cons_of_mem _ hs)
    rw [List.map_cons, List.mapM_cons, hr, hrecords]
    rfl

/-- A list of records is read back from its text as it was, and no other list has the same text. -/
theorem readAll?_writeAll (records : List Record) (h : ∀ r ∈ records, r.Fits) :
    readAll? (writeAll records) = some records ∧
      ∀ others : List Record, others ≠ records → writeAll others ≠ writeAll records := by
  constructor
  · rw [readAll?, read?_writeAll]
    exact mapM_ofJson? h
  · intro others hne htext
    exact hne (writeAll_injective htext)

/-- Two records, one with characters of every kind and the greatest numbers. -/
def extremes : List Record :=
  [ofValues "say \"\\\" \x00\x08\n\x1f\x7f é😀" "src/\t\"a\".ts" fun _ => numberLimit - 1,
    ofValues "" "" fun _ => 0]

theorem readAll?_writeAll_extremes :
    (∀ r ∈ extremes, r.Fits) ∧ readAll? (writeAll extremes) = some extremes ∧
      ∀ others : List Record, others ≠ extremes → writeAll others ≠ writeAll extremes := by
  have hfits : ∀ r ∈ extremes, r.Fits := by
    intro r hr m
    rcases List.mem_pair.mp hr with rfl | rfl
    · rw [value_ofValues]
      decide
    · rw [value_ofValues]
      decide
  exact ⟨hfits, readAll?_writeAll extremes hfits⟩

end ClassGauge.Record
