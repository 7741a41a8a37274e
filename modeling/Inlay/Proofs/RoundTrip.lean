import Inlay.Proofs.Printed
import Inlay.Settings.Load
import Inlay.Settings.Print

namespace Inlay

open Json

/-! ### Descriptors -/

namespace Descriptor

def kind : Descriptor → DescriptorKind
  | .template .. => .template
  | .command .. => .command

def fields : Descriptor → List (String × Value)
  | .template text escape => [("template", .string text), ("escape", escape.value)]
  | .command program args trimTrailingNewline =>
    [("program", .string program), ("args", .array (args.map .string)),
      ("trim_trailing_newline", .bool trimTrailingNewline)]

theorem value_eq (d : Descriptor) : d.value = .object ((Settings.tagName, .string d.kind.name) :: d.fields) := by
  cases d <;> rfl

theorem fields_ne_tagName (d : Descriptor) : ∀ m ∈ d.fields, m.1 ≠ Settings.tagName := by
  cases d <;> simp [fields, Settings.tagName]

theorem isPlain_fields (d : Descriptor) (depth : Nat) : ∀ m ∈ d.fields, m.2.IsPlain (depth + 2) := by
  cases d with
  | template text escape => simp [fields, Escape.value, Value.IsPlain.string]
  | command program args trim =>
      simp [fields, Value.IsPlain.string, Value.IsPlain.bool, Value.IsPlain.strings]

theorem isPlain_value (d : Descriptor) (depth : Nat) : d.value.IsPlain (depth + 3) := by
  rw [value_eq]
  apply Value.IsPlain.object (Nat.succ_pos _)
  exact List.forall_mem_cons.2 ⟨.string _ _, d.isPlain_fields depth⟩

end Descriptor

namespace Settings

theorem kindAt_name (kind : DescriptorKind) : kindAt (Value.string kind.name).toNode = .ok kind := by
  rw [Value.toNode, kindAt, textAt, text_ofString]
  simp [ofJson, DescriptorKind.ofName?_name, bind, Except.bind]

theorem tagged_toMembers {depth : Nat} {kind : DescriptorKind} {ms : List (String × Value)}
    (hms : ∀ m ∈ ms, m.2.IsPlain depth) (htag : ∀ m ∈ ms, m.1 ≠ tagName) :
    tagged depth (some kind) (toMembers ms) = .ok (kind, ms) := by
  induction ms with
  | nil => rfl
  | cons m ms ih =>
      obtain ⟨hm, hms⟩ := List.forall_mem_cons.1 hms
      obtain ⟨hne, htag⟩ := List.forall_mem_cons.1 htag
      rw [toMembers, tagged, text_ofString, hm.value_toNode, ih hms htag]
      simp [ofJson, hne, bind, Except.bind]

theorem tagged_tagName {depth : Nat} (kind : DescriptorKind) {ms : List (String × Value)}
    (hms : ∀ m ∈ ms, m.2.IsPlain depth) (htag : ∀ m ∈ ms, m.1 ≠ tagName) :
    tagged depth none (toMembers ((tagName, .string kind.name) :: ms)) = .ok (kind, ms) := by
  rw [toMembers, tagged, text_ofString, kindAt_name]
  exact tagged_toMembers hms htag

theorem stringsOf_array (args : List String) : stringsOf (.array (args.map .string)) = .ok args := by
  rw [stringsOf]
  induction args with
  | nil => rfl
  | cons a args ih =>
      rw [List.map_cons, List.mapM_cons, ih]
      rfl

theorem escapeOf_value (e : Escape) : escapeOf e.value = .ok e := by
  rw [Escape.value, escapeOf, escapeNamed, Escape.ofName?_name]

theorem ofFields_fields (d : Descriptor) : ofFields d.kind d.fields = .ok d := by
  cases d with
  | template text escape =>
      simp [Descriptor.kind, Descriptor.fields, ofFields, templateFields, once, stringOf, escapeOf_value, required,
        Except.map, bind, Except.bind]
  | command program args trim =>
      simp [Descriptor.kind, Descriptor.fields, ofFields, commandFields, once, stringOf, boolOf,
        stringsOf_array, required, Except.map, bind, Except.bind]

theorem descriptorAt_value (d : Descriptor) (depth : Nat) : descriptorAt (depth + 3) d.value.toNode = .ok d := by
  have htagged := tagged_tagName d.kind (d.isPlain_fields depth) d.fields_ne_tagName
  rw [Descriptor.value_eq, Value.toNode, descriptorAt, Nat.add_one_sub_one, htagged]
  exact ofFields_fields d

/-! ### Fields -/

theorem textAt_string (expected s : String) : textAt expected (Value.string s).toNode = .ok s := by
  rw [Value.toNode, textAt, text_ofString]
  rfl

theorem entriesOf_toMembers {α : Type} {read : Node → Read α} {value : α → Value}
    (hread : ∀ a, read (value a).toNode = .ok a) (es : List (String × α)) :
    entriesOf read (toMembers (es.map fun e => (e.1, value e.2))) = .ok es := by
  induction es with
  | nil => rfl
  | cons e es ih =>
      rw [List.map_cons, toMembers, entriesOf, text_ofString, hread, ih]
      rfl

theorem tableAt_object {α : Type} {read : Node → Read α} {value : α → Value}
    (hread : ∀ a, read (value a).toNode = .ok a) (t : Table String α) :
    tableAt read (Value.object (t.entries.map fun e => (e.1, value e.2))).toNode = .ok t := by
  rw [Value.toNode, tableAt, entriesOf_toMembers hread]
  exact congrArg Except.ok t.ofList_entries

theorem pathsAt_array (paths : List String) : pathsAt (Value.array (paths.map .string)).toNode = .ok paths := by
  rw [Value.toNode, pathsAt]
  induction paths with
  | nil => rfl
  | cons p paths ih =>
      rw [List.map_cons, toItems, pathsOf, pathAt, textAt_string, ih]
      rfl

def Draft.take (s : Settings) (d : Draft) : Field → Draft
  | .dsl => { d with dsl := some s.dsl }
  | .packages => { d with packages := some s.packages }
  | .packageRoots => { d with packageRoots := some s.packageRoots }
  | .fusionPath => { d with fusionPath := some s.fusionPath }
  | .fileExtension => { d with fileExtension := some s.fileExtension }

theorem Draft.has_take (s : Settings) (d : Draft) {f g : Field} (h : g ≠ f) : (d.take s f).has g = d.has g := by
  cases f <;> cases g <;> first | rfl | exact absurd rfl h

theorem Draft.read_fieldValue (s : Settings) (d : Draft) (f : Field) :
    d.read (s.fieldValue f).toNode f = .ok (d.take s f) := by
  cases f with
  | dsl =>
      have hread (d : Descriptor) : descriptorAt descriptorDepth d.value.toNode = .ok d := descriptorAt_value d 123
      rw [read, fieldValue, tableAt_object hread]
      rfl
  | packages =>
      have hread (path : String) : pathAt (Value.string path).toNode = .ok path := textAt_string _ path
      rw [read, fieldValue, tableAt_object hread]
      rfl
  | packageRoots =>
      rw [read, fieldValue, pathsAt_array]
      rfl
  | fusionPath =>
      rw [read, fieldValue, pathAt, textAt_string]
      rfl
  | fileExtension =>
      rw [read, fieldValue, textAt_string]
      rfl

theorem draftOfMembers_fields (s : Settings) {fs : List Field} (hfs : fs.Nodup) {d : Draft}
    (hd : ∀ f ∈ fs, d.has f = false) :
    draftOfMembers d (toMembers (fs.map fun f => (f.name, s.fieldValue f))) = .ok (fs.foldl (Draft.take s) d) := by
  induction fs generalizing d with
  | nil => rfl
  | cons f fs ih =>
      obtain ⟨hf, hfs⟩ := List.nodup_cons.1 hfs
      obtain ⟨hd, hrest⟩ := List.forall_mem_cons.1 hd
      have hnext : ∀ g ∈ fs, (d.take s f).has g = false := by
        intro g hg
        rw [Draft.has_take s d fun h : g = f => hf (h ▸ hg)]
        exact hrest g hg
      rw [List.map_cons, toMembers, draftOfMembers, text_ofString]
      simp [ofJson, Field.ofName?_name, hd, Draft.read_fieldValue, bind, Except.bind, ih hfs hnext]

theorem settingsAt_value (s : Settings) : settingsAt s.value.toNode = .ok s := by
  have hdraft : draftOfMembers {} (toMembers (Field.all.map fun f => (f.name, s.fieldValue f))) =
      .ok (Field.all.foldl (Draft.take s) {}) := draftOfMembers_fields s (by decide) (by decide)
  rw [value, Value.toNode, settingsAt, hdraft]
  rfl

theorem isPlain_fieldValue (s : Settings) (f : Field) (depth : Nat) : (s.fieldValue f).IsPlain (depth + 4) := by
  cases f with
  | dsl =>
      apply Value.IsPlain.object (Nat.succ_pos _)
      intro m hm
      obtain ⟨e, -, rfl⟩ := List.mem_map.1 hm
      exact e.2.isPlain_value depth
  | packages =>
      apply Value.IsPlain.object (Nat.succ_pos _)
      intro m hm
      obtain ⟨e, -, rfl⟩ := List.mem_map.1 hm
      exact .string _ e.2
  | packageRoots => exact .strings s.packageRoots (depth + 2)
  | fusionPath => exact .string _ s.fusionPath
  | fileExtension => exact .string _ s.fileExtension

theorem isPlain_value (s : Settings) (depth : Nat) : s.value.IsPlain (depth + 5) := by
  apply Value.IsPlain.object (Nat.succ_pos _)
  intro m hm
  obtain ⟨f, -, rfl⟩ := List.mem_map.1 hm
  exact s.isPlain_fieldValue f depth

theorem parse_print (s : Settings) : parse (Text.encode s.print) = .ok s := by
  rw [parse, print, (s.isPlain_value 0).parse, settingsAt_value]
  rfl

theorem same_self (s : Settings) : s.same s := by simp [same]

end Settings

/-- Settings are read back from their text as they were, so the text tells settings apart. -/
theorem settings_round_trip :
    (∀ position (s : Settings), Settings.ofText position (Text.encode s.print) = .ok s) ∧ Function.Injective Settings.print ∧
      ∀ s t : Settings, s.same t = false → s.print ≠ t.print := by
  have hread (position : Position) (s : Settings) : Settings.ofText position (Text.encode s.print) = .ok s := by
    rw [Settings.ofText, s.parse_print]
  have hinjective : Function.Injective Settings.print := by
    intro s t hprint
    have hs := s.parse_print
    rw [hprint, t.parse_print] at hs
    exact (Except.ok.inj hs).symm
  refine ⟨hread, hinjective, ?_⟩
  intro s t hsame hprint
  rw [hinjective hprint, t.same_self] at hsame
  cases hsame

example : ({ dsl := .ofList [("md", .template "'{code}'\n" .singleQuote)] } : Settings).print =
    "\x7b\"dsl\":\x7b\"md\":\x7b\"type\":\"template\",\"template\":\"'\x7bcode\x7d'\\n\"," ++
      "\"escape\":\"single_quote\"\x7d\x7d,\"packages\":\x7b\x7d,\"package_roots\":[\"Packages\"]," ++
      "\"fusion_path\":\"Resources/Private/Fusion\",\"file_extension\":\"fusion\"\x7d" := by
  decide +kernel

end Inlay
