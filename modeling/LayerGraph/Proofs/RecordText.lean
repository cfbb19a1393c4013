import LayerGraph.Proofs.JsonText
import LayerGraph.Record.File

/-!
# Record files that are read back

A record file holds what the records say: each line is read back as the record it was written for,
and the lines as the list of the records. Orders have to be integers of 64 bits, which is what the
reader accepts.

Main statements:
1. `EntityRecord.readWhole_line`: the line of a record is read back.
2. `RecordFile.records_render`: so is the text of a list of records.
-/

namespace LayerGraph

open Json

variable {r : EntityRecord}

/-! ## Members of an object -/

/-- A field with its value, as a member of an object. -/
def memberText (m : RecordField × Value) : List Char :=
  (quote m.1.word).toList ++ ':' :: m.2.compact.toList

namespace RecordDraft

/-- Reading a field that the draft does not have from the text of a value leads to another draft. -/
structure Reads (d : RecordDraft) (f : RecordField) (v : Value) (d' : RecordDraft) : Prop where
  absent : d.has f = false
  read : ∀ (c : Char) (more : List Char), IsMemberEnd c →
    d.read f (v.compact.toList ++ c :: more) = .ok (d', c :: more)

/-- Reading members one after another leads to another draft. -/
inductive Fills : RecordDraft → List (RecordField × Value) → RecordDraft → Prop
  | nil (d : RecordDraft) : Fills d [] d
  | cons {d d' d'' : RecordDraft} {f : RecordField} {v : Value} {ms : List (RecordField × Value)} :
      Reads d f v d' → Fills d' ms d'' → Fills d ((f, v) :: ms) d''

variable {d d' d'' : RecordDraft} {ms ms' : List (RecordField × Value)}

theorem Fills.append (h : Fills d ms d') (h' : Fills d' ms' d'') : Fills d (ms ++ ms') d'' := by
  induction h with
  | nil => exact h'
  | cons first _ ih => exact .cons first (ih h')

theorem ofWord?_word (f : RecordField) : RecordField.ofWord? f.word = some f := by
  cases f <;> decide

theorem Reads.readMember {f : RecordField} {v : Value} (h : Reads d f v d') {c : Char}
    (hc : IsMemberEnd c) (more : List Char) :
    EntityRecord.readMember d f.word (':' :: (v.compact.toList ++ c :: more)) =
      .ok (d', c :: more) := by
  simp [EntityRecord.readMember, ofWord?_word, h.absent, readVariant.colon,
    skipSpaces_cons (c := ':') rfl, h.read c more hc]

theorem exists_memberEnd (ms : List (RecordField × Value)) (more : List Char) : ∃ c rest,
    IsMemberEnd c ∧ (ms.flatMap fun m => ',' :: memberText m) ++ '\x7d' :: more = c :: rest := by
  cases ms with
  | nil => exact ⟨'\x7d', more, .inr rfl, rfl⟩
  | cons m ms => exact ⟨',', _, .inl rfl, rfl⟩

/-- An object is read from its first key on, member by member. -/
theorem Fills.readMembers (h : Fills d ms d') (hr : d'.finish = .ok r) : ∀ (fuel : Nat)
    (more : List Char), ms.length < fuel →
    EntityRecord.readMembers fuel false d
      ((ms.flatMap fun m => ',' :: memberText m) ++ '\x7d' :: more) = .ok (r, more) := by
  induction h with
  | nil d =>
    intro fuel more hfuel
    obtain ⟨fuel, rfl⟩ := Nat.exists_eq_succ_of_ne_zero (Nat.ne_of_gt hfuel)
    simp [EntityRecord.readMembers, EntityRecord.nextKey?, skipSpaces_cons (c := '\x7d') rfl, hr]
    rfl
  | @cons d d' d'' f v ms first _ ih =>
    intro fuel more hfuel
    obtain ⟨fuel, rfl⟩ := Nat.exists_eq_succ_of_ne_zero (Nat.ne_of_gt (Nat.zero_lt_of_lt hfuel))
    obtain ⟨c, rest, hc, hrest⟩ := exists_memberEnd ms more
    have others := ih hr fuel more (Nat.lt_of_succ_lt_succ hfuel)
    rw [hrest] at others
    rw [List.flatMap_cons, List.append_assoc, hrest]
    simp [EntityRecord.readMembers, EntityRecord.nextKey?, skipSpaces_cons (c := ',') rfl,
      skipSpaces_cons (c := '"') rfl, memberText, scanQuoted_escaped, first.readMember hc, others]

/-- An object is read; its length is enough for all of its members. -/
theorem Fills.read {f : RecordField} {v : Value} (h : Fills {} ((f, v) :: ms) d')
    (hr : d'.finish = .ok r) (more : List Char) :
    EntityRecord.read ('\x7b' :: (memberText (f, v) ++
      ((ms.flatMap fun m => ',' :: memberText m) ++ '\x7d' :: more))) = .ok (r, more) := by
  obtain _ | ⟨first, others⟩ := h
  obtain ⟨c, rest, hc, hrest⟩ := exists_memberEnd ms more
  have long := length_le_length_flatMap
    (f := fun m => ',' :: memberText m) (fun _ => List.cons_ne_nil _ _) ms
  have enough : ms.length < (memberText (f, v) ++ (c :: rest)).length := by
    rw [← hrest]
    simp only [List.length_append, List.length_cons]
    omega
  have tail := others.readMembers hr _ more enough
  rw [hrest] at tail ⊢
  simp [EntityRecord.read, skipSpaces_cons (c := '\x7b') rfl, EntityRecord.readMembers,
    EntityRecord.nextKey?, skipSpaces_cons (c := '"') rfl, memberText, scanQuoted_escaped,
    first.readMember hc] at tail ⊢
  exact tail

end RecordDraft

/-! ## Records -/

namespace EntityRecord

open RecordDraft

/-- The members that the record is written with. -/
def members (r : EntityRecord) : List (RecordField × Value) :=
  let texts (f : RecordField) (ss : List String) : List (RecordField × Value) :=
    if ss.isEmpty then [] else [(f, .texts ss)]
  let optional {α : Type} (f : RecordField) (o : Option α) (write : α → Value) :
      List (RecordField × Value) :=
    o.toList.map fun a => (f, write a)
  [(.kind, .str r.kind.word), (.name, .str r.name)] ++
    optional .parentClass r.parentClass .str ++
    texts .usesTables r.usesTables ++ texts .callsProcedures r.callsProcedures ++
    texts .usesClasses r.usesClasses ++ optional .order r.order .int ++
    optional .layer r.layer (fun l => .str l.name)

theorem toJson_eq (r : EntityRecord) :
    r.toJson = .obj (r.members.map fun m => (m.1.word, m.2)) := by
  have texts (f : RecordField) (ss : List String) :
      (if ss.isEmpty then [] else [(f, Value.texts ss)]).map (fun m => (m.1.word, m.2)) =
        if ss.isEmpty then [] else [(f.word, .texts ss)] := by
    split <;> rfl
  simp only [toJson, members, List.map_append, texts, List.map_map, Function.comp_def]
  rfl

/-- The draft that is filled from the members of the record. -/
def draft (r : EntityRecord) : RecordDraft where
  kind := some r.kind
  name := some r.name
  parentClass := r.parentClass.map some
  usesTables := if r.usesTables.isEmpty then none else some r.usesTables
  callsProcedures := if r.callsProcedures.isEmpty then none else some r.callsProcedures
  usesClasses := if r.usesClasses.isEmpty then none else some r.usesClasses
  order := r.order.map some
  layer := r.layer.map some

theorem finish_draft (r : EntityRecord) : r.draft.finish = .ok r := by
  have texts (ss : List String) : (if ss.isEmpty then none else some ss).getD [] = ss := by
    cases ss <;> rfl
  have optional {α : Type} (o : Option α) : (o.map some).join = o := by
    cases o <;> rfl
  simp only [RecordDraft.finish, draft, texts, optional]

/-- The order is one that a reader accepts. -/
def HasOrder64 (r : EntityRecord) : Prop :=
  ∀ o ∈ r.order, -2 ^ 63 ≤ o ∧ o < 2 ^ 63

theorem readVariant_kind (k : EntityKind) (more : List Char) :
    readVariant EntityKind.words ((quote k.word).toList ++ more) = .ok (k, more) :=
  readVariant_quote (by cases k <;> decide) more

theorem readVariant_layer (l : Layer) (more : List Char) :
    readVariant Layer.words ((quote l.name).toList ++ more) = .ok (l, more) :=
  readVariant_quote (by cases l <;> decide) more

theorem readOptional_cons {α : Type} {reader : List Char → Except Fault (α × List Char)} {c : Char}
    (space : isSpace c = false) (hc : c ≠ 'n') {cs rest : List Char} {a : α}
    (h : reader (c :: cs) = .ok (a, rest)) : readOptional reader (c :: cs) = .ok (some a, rest) := by
  unfold readOptional
  rw [skipSpaces_cons space]
  split
  · rename_i null
    cases null
    exact absurd rfl hc
  · rw [h]
    rfl

theorem readOptional_quote {α : Type} {reader : List Char → Except Fault (α × List Char)}
    {s : String} {a : α} {more : List Char}
    (h : reader ((quote s).toList ++ more) = .ok (a, more)) :
    readOptional reader ((quote s).toList ++ more) = .ok (some a, more) := by
  rw [toList_quote] at h ⊢
  exact readOptional_cons rfl (by decide) h

theorem exists_intText (i : Int) : ∃ c cs, (Decimal.intText i).toList = c :: cs ∧
    isSpace c = false ∧ c ≠ 'n' := by
  rw [Decimal.intText, String.toList_ofList]
  split
  · exact ⟨'-', _, rfl, rfl, by decide⟩
  · obtain ⟨d, ds, hds⟩ := List.exists_cons_of_ne_nil (digits_ne_nil i.natAbs)
    have digit : Decimal.isDigit d = true :=
      Decimal.isDigit_of_mem_digits i.natAbs d (by rw [hds]; exact List.mem_cons_self)
    refine ⟨d, ds, hds, isSpace_of_isDigit digit, ?_⟩
    rintro rfl
    exact absurd digit (by decide)

theorem readOptional_intText {i : Int} (low : -2 ^ 63 ≤ i) (high : i < 2 ^ 63) {c : Char}
    (hc : IsMemberEnd c) (more : List Char) :
    readOptional readInteger ((Decimal.intText i).toList ++ c :: more) =
      .ok (some i, c :: more) := by
  obtain ⟨d, ds, hds, space, hd⟩ := exists_intText i
  have read := readInteger_intText low high hc more
  rw [hds] at read ⊢
  exact readOptional_cons space hd read

variable {f : RecordField}

/-- A member that is left out when there is nothing leaves its field empty then. -/
theorem fills_option {α : Type} (f : RecordField) (o : Option α) (write : α → Value)
    (set : Option (Option α) → RecordDraft) (absent : (set none).has f = false)
    (read : ∀ a ∈ o, ∀ c more, IsMemberEnd c →
      (set none).read f ((write a).compact.toList ++ c :: more) =
        .ok (set (some (some a)), c :: more)) :
    Fills (set none) (o.toList.map fun a => (f, write a)) (set (o.map some)) := by
  cases o with
  | none => exact .nil _
  | some a => exact .cons ⟨absent, read a rfl⟩ (.nil _)

theorem fills_texts (f : RecordField) (ss : List String)
    (set : Option (List String) → RecordDraft) (absent : (set none).has f = false)
    (read : ∀ c more, IsMemberEnd c →
      (set none).read f ((Value.texts ss).compact.toList ++ c :: more) =
        .ok (set (some ss), c :: more)) :
    Fills (set none) (if ss.isEmpty then [] else [(f, .texts ss)])
      (set (if ss.isEmpty then none else some ss)) := by
  cases ss with
  | nil => exact .nil _
  | cons s ss => exact .cons ⟨absent, read⟩ (.nil _)

/-- The members of a record lead to its draft, field by field. -/
theorem fills_draft (h : r.HasOrder64) : Fills {} r.members r.draft := by
  have required : Fills {} [(.kind, .str r.kind.word), (.name, .str r.name)]
      { kind := some r.kind, name := some r.name } := by
    have kind : Reads {} .kind (.str r.kind.word) { kind := some r.kind } := by
      refine ⟨rfl, fun c more _ => ?_⟩
      rw [RecordDraft.read, Value.compact, readVariant_kind]
      rfl
    refine .cons kind (.cons ⟨rfl, fun c more _ => ?_⟩ (.nil _))
    rw [RecordDraft.read, Value.compact, readText_quote]
    rfl
  have parent := fills_option .parentClass r.parentClass .str
    (fun p => { kind := some r.kind, name := some r.name, parentClass := p }) rfl
    fun p _ c more _ => by
      rw [RecordDraft.read, Value.compact, readOptional_quote (readText_quote p _)]
      rfl
  have tables := fills_texts .usesTables r.usesTables
    (fun ts => { kind := some r.kind, name := some r.name,
                 parentClass := r.parentClass.map some, usesTables := ts }) rfl
    fun c more _ => by
      rw [RecordDraft.read, readTexts_compact]
      rfl
  have procedures := fills_texts .callsProcedures r.callsProcedures
    (fun ps => { r.draft with callsProcedures := ps, usesClasses := none, order := none,
                              layer := none }) rfl
    fun c more _ => by
      rw [RecordDraft.read, readTexts_compact]
      rfl
  have classes := fills_texts .usesClasses r.usesClasses
    (fun cs => { r.draft with usesClasses := cs, order := none, layer := none }) rfl
    fun c more _ => by
      rw [RecordDraft.read, readTexts_compact]
      rfl
  have order := fills_option .order r.order .int
    (fun o => { r.draft with order := o, layer := none }) rfl
    fun o ho c more hc => by
      rw [RecordDraft.read, Value.compact, readOptional_intText (h o ho).1 (h o ho).2 hc]
      rfl
  have layer := fills_option .layer r.layer (fun l => .str l.name)
    (fun l => { r.draft with layer := l }) rfl
    fun l _ c more _ => by
      rw [RecordDraft.read, Value.compact, readOptional_quote (readVariant_layer l _)]
      rfl
  exact (((((required.append parent).append tables).append procedures).append classes).append
    order).append layer

theorem map_toList_compactMembers (ms : List (RecordField × Value)) :
    (Value.compactMembers (ms.map fun m => (m.1.word, m.2))).map String.toList =
      ms.map memberText := by
  induction ms with
  | nil => rfl
  | cons m ms ih => simp [Value.compactMembers, memberText, ih]

/-- The line of a record is an object of its members; the first one is always there. -/
theorem toList_line (r : EntityRecord) : ∃ f v ms, r.members = (f, v) :: ms ∧
    r.line.toList = '\x7b' :: (memberText (f, v) ++
      ((ms.flatMap fun m => ',' :: memberText m) ++ ['\x7d'])) := by
  obtain ⟨f, v, ms, hms⟩ : ∃ f v ms, r.members = (f, v) :: ms := ⟨_, _, _, rfl⟩
  refine ⟨f, v, ms, hms, ?_⟩
  have line : r.line.toList =
      '\x7b' :: ([','].intercalate (r.members.map memberText) ++ ['\x7d']) := by
    rw [EntityRecord.line, toJson_eq, Value.compact, String.toList_append, String.toList_append,
      String.toList_intercalate, map_toList_compactMembers]
    simp
  rw [line, hms, List.map_cons, intercalate_cons_eq, List.flatMap_map, List.append_assoc]

/-- The line of a record is read back. -/
theorem readWhole_line (h : r.HasOrder64) : readWhole read r.line.toList = .ok r := by
  obtain ⟨f, v, ms, hms, hline⟩ := r.toList_line
  have filled := fills_draft h
  rw [hms] at filled
  rw [hline, readWhole, filled.read r.finish_draft []]
  rfl

theorem readLine_line (h : r.HasOrder64) : RecordFile.readLine r.line.toList = .ok r := by
  rw [RecordFile.readLine, readWhole_line h]
  rfl

theorem noControls_line (r : EntityRecord) : NoControls r.line.toList :=
  Value.noControls_compact r.toJson

theorem newline_notMem_line (r : EntityRecord) : '\n' ∉ r.line.toList :=
  fun h => absurd (r.noControls_line _ h) (by decide)

/-- The line of a record begins and ends with a brace. -/
theorem exists_line (r : EntityRecord) : ∃ cs, r.line.toList = '\x7b' :: (cs ++ ['\x7d']) := by
  obtain ⟨f, v, ms, -, hline⟩ := r.toList_line
  exact ⟨_, by rw [hline, List.append_assoc]⟩

end EntityRecord

/-! ## Lines -/

theorem Text.linesFrom_line {line : List Char} (h : '\n' ∉ line) (rest : List Char) :
    ∀ current, linesFrom current (line ++ '\n' :: rest) =
      (dropReturn (line.reverse ++ current)).reverse :: lines rest := by
  induction line with
  | nil =>
    intro current
    simp [linesFrom, lines]
  | cons c line ih =>
    intro current
    have hc : c ≠ '\n' := fun e => h (by rw [e]; exact List.mem_cons_self)
    simp [linesFrom, hc, ih (fun hmem => h (List.mem_cons_of_mem c hmem))]

namespace RecordFile

theorem lines_line (r : EntityRecord) (rest : List Char) :
    Text.lines (r.line.toList ++ '\n' :: rest) = r.line.toList :: Text.lines rest := by
  obtain ⟨cs, hcs⟩ := r.exists_line
  rw [Text.lines, Text.linesFrom_line r.newline_notMem_line]
  simp [hcs, Text.dropReturn]

theorem isBlank_line (r : EntityRecord) : r.line.toList.all Text.isBlank = false := by
  obtain ⟨cs, hcs⟩ := r.exists_line
  rw [hcs, List.all_cons, show Text.isBlank '\x7b' = false by decide, Bool.false_and]

theorem toList_render (rs : List EntityRecord) :
    (render rs).toList = rs.flatMap fun r => r.line.toList ++ ['\n'] := by
  simp [render, List.flatMap_map]

theorem lines_render (rs : List EntityRecord) :
    Text.lines (render rs).toList = rs.map fun r => r.line.toList := by
  rw [toList_render]
  induction rs with
  | nil => rfl
  | cons r rs ih =>
    rw [List.flatMap_cons, List.append_assoc, List.singleton_append, lines_line, ih, List.map_cons]

/-- The record that a line holds, if it holds one. -/
def lineRecord? (line : List Char) : Option EntityRecord :=
  if line.all Text.isBlank then none else (readLine line).toOption

/-- The records of a text are those that its lines hold. -/
theorem records_eq (content : List Char) :
    records content = (Text.lines content).filterMap lineRecord? := by
  have numbered := List.zipIdx_map_fst 1 (Text.lines content)
  rw [records, entries, List.filterMap_filterMap, ← congrArg (List.filterMap lineRecord?) numbered,
    List.filterMap_map]
  refine List.filterMap_congr fun (line, n) _ => ?_
  simp only [Function.comp_apply, lineRecord?]
  split <;> rfl

/-- A list of records is read back from its text. -/
theorem records_render {rs : List EntityRecord} (h : ∀ r ∈ rs, r.HasOrder64) :
    records (render rs).toList = rs := by
  have held (r : EntityRecord) (hr : r ∈ rs) : lineRecord? r.line.toList = some r := by
    rw [lineRecord?, isBlank_line, if_neg Bool.false_ne_true, EntityRecord.readLine_line (h r hr)]
    rfl
  calc records (render rs).toList
      = rs.filterMap fun r => lineRecord? r.line.toList := by
        rw [records_eq, lines_render, List.filterMap_map, Function.comp_def]
    _ = rs.filterMap some := List.filterMap_congr held
    _ = rs := List.filterMap_some

end RecordFile

end LayerGraph
