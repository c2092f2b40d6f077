import Pratt.Json.Printer
import Pratt.Json.Reader

set_option autoImplicit false

/-!
# JSON values are read back from their texts

Both texts of a value, the compact one and the indented one, are cut into the
same symbols (`Json.symbols`), and the builder puts these symbols together to
the value again (`Json.read?_compact`, `Json.read?_indented`).

Most texts are cut in the same way whatever follows them (`Json.Lexes`).
A number goes on as long as characters of numbers follow, so what is said
of values holds in front of other characters only (`Json.LexesBefore`).
In a text, these are the blanks, the commas and the brackets that a
writer puts behind a value.
-/

namespace Pratt.Json

/-! ## Induction -/

/-- What holds of an array if it holds of its items, and of an object if it
holds of its fields, holds of every value if it does of those that are neither. -/
@[elab_as_elim]
theorem inductionOnParts {motive : Json → Prop} (null : motive .null)
    (bool : ∀ truth, motive (.bool truth))
    (number : ∀ written, motive (.number written))
    (text : ∀ content, motive (.text content))
    (list : ∀ items, (∀ item ∈ items, motive item) → motive (.list items))
    (object : ∀ fields : List (String × Json),
      (∀ field ∈ fields, motive field.2) → motive (.object fields))
    (json : Json) : motive json :=
  @Json.rec motive (fun items => ∀ item ∈ items, motive item)
    (fun fields => ∀ field ∈ fields, motive field.2)
    (fun field => motive field.2) null bool number text list object
    nofun (fun _ _ hitem hitems => List.forall_mem_cons.mpr ⟨hitem, hitems⟩)
    nofun (fun _ _ hfield hfields => List.forall_mem_cons.mpr ⟨hfield, hfields⟩)
    (fun _ _ hfield => hfield) json

/-! ## Numbers -/

mutual

/-- Whether all numbers in a value are written as JSON writes them. -/
def isWritable : Json → Bool
  | .number written => isNumber written.toList
  | .list items => areWritable items
  | .object fields => haveWritable fields
  | .null | .bool _ | .text _ => true

/-- Whether this is so in all items. -/
def areWritable : List Json → Bool
  | [] => true
  | item :: items => item.isWritable && areWritable items

/-- Whether this is so in all fields. -/
def haveWritable : List (String × Json) → Bool
  | [] => true
  | (_, field) :: fields => field.isWritable && haveWritable fields

end

theorem isWritable_list_iff {items : List Json} :
    (Json.list items).isWritable = true ↔
    ∀ item ∈ items, item.isWritable = true := by
  rw [isWritable]
  induction items with
  | nil => simp [areWritable]
  | cons item items ih => simp [areWritable, ih]

theorem isWritable_object_iff {fields : List (String × Json)} :
    (Json.object fields).isWritable = true ↔
    ∀ field ∈ fields, field.2.isWritable = true := by
  rw [isWritable]
  induction fields with
  | nil => simp [haveWritable]
  | cons field fields ih => simp [haveWritable, ih]

/-- The text begins with characters of numbers, and the rest is behind them. -/
def LeavesBehind (text rest : List Char) : Prop :=
  ∃ front, text = front ++ rest ∧ ∀ c ∈ front, isBareChar c = true

namespace LeavesBehind

theorem refl (text : List Char) : LeavesBehind text text := ⟨[], rfl, nofun⟩

theorem cons {c : Char} {text rest : List Char} (hc : isBareChar c = true)
    (h : LeavesBehind text rest) :
    LeavesBehind (c :: text) rest := by
  obtain ⟨front, rfl, hfront⟩ := h
  exact ⟨c :: front, rfl, List.forall_mem_cons.mpr ⟨hc, hfront⟩⟩

theorem trans {text middle rest : List Char} (h : LeavesBehind text middle)
    (h' : LeavesBehind middle rest) :
    LeavesBehind text rest := by
  obtain ⟨front, rfl, hfront⟩ := h
  obtain ⟨front', rfl, hfront'⟩ := h'
  exact ⟨front ++ front', (List.append_assoc _ _ _).symm,
    List.forall_mem_append.mpr ⟨hfront, hfront'⟩⟩

theorem afterDigits {text rest : List Char}
    (h : afterDigits? text = some rest) : LeavesBehind text rest := by
  have hbare : ∀ {c : Char}, c.isDigit = true → isBareChar c = true := by
    intro c hc
    simp [isBareChar, Char.isAlphanum, hc]
  cases text with
  | nil => cases h
  | cons c text =>
    rw [afterDigits?] at h
    split at h
    · next hc =>
      obtain rfl := Option.some.inj h
      refine cons (hbare hc)
        ⟨text.takeWhile Char.isDigit, List.takeWhile_append_dropWhile.symm, ?_⟩
      intro d hd
      exact hbare (List.all_eq_true.mp List.all_takeWhile d hd)
    · cases h

theorem afterMinus (text : List Char) : LeavesBehind text (afterMinus text) := by
  unfold Json.afterMinus
  split
  · exact cons (by decide) (refl _)
  · exact refl _

theorem afterIntegral {text rest : List Char}
    (h : afterIntegral? text = some rest) : LeavesBehind text rest := by
  unfold afterIntegral? at h
  split at h
  · obtain rfl := Option.some.inj h
    exact cons (by decide) (refl _)
  · exact afterDigits h

theorem afterFraction {text rest : List Char}
    (h : afterFraction? text = some rest) : LeavesBehind text rest := by
  unfold afterFraction? at h
  split at h
  · exact cons (by decide) (afterDigits h)
  · obtain rfl := Option.some.inj h
    exact refl _

theorem afterSign (text : List Char) : LeavesBehind text (afterSign text) := by
  unfold Json.afterSign
  split
  · exact cons (by decide) (refl _)
  · exact cons (by decide) (refl _)
  · exact refl _

theorem afterExponent {text rest : List Char}
    (h : afterExponent? text = some rest) : LeavesBehind text rest := by
  unfold afterExponent? at h
  split at h
  · exact cons (by decide) ((afterSign _).trans (afterDigits h))
  · exact cons (by decide) ((afterSign _).trans (afterDigits h))
  · obtain rfl := Option.some.inj h
    exact refl _

end LeavesBehind

theorem isBareChar_of_isNumber {text : List Char} (h : isNumber text = true) :
    ∀ c ∈ text, isBareChar c = true := by
  simp only [isNumber, beq_iff_eq, Option.bind_eq_some_iff] at h
  obtain ⟨behindFraction, ⟨behindIntegral, hintegral, hfraction⟩, hexponent⟩ := h
  have hleaves : LeavesBehind text [] :=
    (LeavesBehind.afterMinus text).trans
      ((LeavesBehind.afterIntegral hintegral).trans
        ((LeavesBehind.afterFraction hfraction).trans
          (LeavesBehind.afterExponent hexponent)))
  obtain ⟨front, hfront, hbare⟩ := hleaves
  rw [List.append_nil] at hfront
  rw [hfront]
  exact hbare

/-- A number is taken for no constant. -/
theorem ofBare?_of_isNumber {written : String}
    (h : isNumber written.toList = true) :
    ofBare? written = some (.number written) := by
  have hne : ∀ {constant : String},
      isNumber constant.toList = false → written ≠ constant := by
    rintro constant hconstant rfl
    rw [h] at hconstant
    cases hconstant
  rw [ofBare?, if_neg (hne (by decide)), if_neg (hne (by decide)),
    if_neg (hne (by decide)), if_pos h]

/-! ## Symbols of a value -/

mutual

/-- The symbols that a value is written with. -/
def symbols : Json → List Symbol
  | .null => [.bare "null"]
  | .bool true => [.bare "true"]
  | .bool false => [.bare "false"]
  | .number written => [.bare written]
  | .text content => [.text content]
  | .list items =>
    .openList ::
      ([Symbol.comma].intercalate (itemSymbols items) ++ [.closeList])
  | .object fields =>
    .openObject ::
      ([Symbol.comma].intercalate (fieldSymbols fields) ++ [.closeObject])

/-- The symbols of each item. -/
def itemSymbols : List Json → List (List Symbol)
  | [] => []
  | item :: items => item.symbols :: itemSymbols items

/-- The symbols of each field. -/
def fieldSymbols : List (String × Json) → List (List Symbol)
  | [] => []
  | (name, field) :: fields =>
    (.text name :: .colon :: field.symbols) :: fieldSymbols fields

end

theorem itemSymbols_eq_map (items : List Json) :
    itemSymbols items = items.map symbols := by
  induction items with
  | nil => rfl
  | cons item items ih => rw [itemSymbols, ih, List.map_cons]

theorem fieldSymbols_eq_map (fields : List (String × Json)) :
    fieldSymbols fields =
      fields.map fun field => .text field.1 :: .colon :: field.2.symbols := by
  induction fields with
  | nil => rfl
  | cons field fields ih => rw [fieldSymbols, ih, List.map_cons]

/-- A value does not begin like the end of an array. -/
theorem exists_symbols_eq_cons (json : Json) :
    ∃ first rest, json.symbols = first :: rest ∧ first ≠ .closeList := by
  cases json with
  | bool truth => cases truth <;> exact ⟨_, _, rfl, nofun⟩
  | null | number _ | text _ | list _ | object _ => exact ⟨_, _, rfl, nofun⟩

/-! ## Building -/

/-- Pieces with commas between them are added one by one to those in front of
them. -/
theorem foldlM_intercalate {α : Type} (spell : α → List Symbol) (close : Symbol)
    (waiting complete : List α → Builder) {pieces : List α} (hne : pieces ≠ [])
    (h : ∀ piece ∈ pieces, ∀ done, ∃ behind,
        (spell piece).foldlM Builder.step (waiting done) = some behind ∧
        behind.step .comma = some (waiting (piece :: done)) ∧
        behind.step close = some (complete (piece :: done))) (done : List α) :
    ([Symbol.comma].intercalate (pieces.map spell) ++ [close]).foldlM
      Builder.step (waiting done) =
      some (complete (pieces.reverse ++ done)) := by
  induction pieces generalizing done with
  | nil => exact absurd rfl hne
  | cons piece pieces ih =>
    obtain ⟨hpiece, hpieces⟩ := List.forall_mem_cons.mp h
    obtain ⟨behind, hspell, hcomma, hclose⟩ := hpiece done
    cases pieces with
    | nil =>
      rw [List.map_singleton, List.intercalate_singleton, List.foldlM_append,
        hspell]
      change behind.step close >>= pure = _
      rw [hclose]
      rfl
    | cons next pieces =>
      rw [List.map_cons, List.map_cons, List.intercalate_cons_cons,
        List.append_assoc, List.append_assoc, List.foldlM_append, hspell,
        List.reverse_cons, List.append_assoc]
      change behind.step .comma >>= _ = _
      rw [hcomma]
      exact ih (List.cons_ne_nil next pieces) hpieces (piece :: done)

/-- Where a value is waited for, the symbols make up this one. -/
def Builds (symbols : List Symbol) (json : Json) : Prop :=
  ∀ frames,
    symbols.foldlM Builder.step ⟨frames, .value⟩ = some ⟨frames, .after json⟩

/-- The first item of an array is read like a value. -/
theorem foldlM_firstItem {first : Symbol} (h : first ≠ .closeList)
    (rest : List Symbol) (frames : List Builder.Frame) :
    (first :: rest).foldlM Builder.step ⟨frames, .firstItem⟩ =
      (first :: rest).foldlM Builder.step ⟨.list [] :: frames, .value⟩ := by
  cases first with
  | closeList => exact absurd rfl h
  | openList | openObject | closeObject | colon | comma | text _ | bare _ => rfl

theorem Builds.list {items : List Json}
    (h : ∀ item ∈ items, Builds item.symbols item) :
    Builds (Json.list items).symbols (.list items) := by
  intro frames
  rw [symbols, itemSymbols_eq_map]
  cases items with
  | nil => rfl
  | cons item items =>
    have hitems := foldlM_intercalate symbols .closeList
      (fun done => ⟨.list done :: frames, .value⟩)
      (fun done => ⟨frames, .after (.list done.reverse)⟩)
      (List.cons_ne_nil item items)
      (fun piece hmem done =>
        ⟨_, h piece hmem (.list done :: frames), rfl, rfl⟩) []
    obtain ⟨first, rest, hsymbols, hfirst⟩ := exists_symbols_eq_cons item
    rw [List.append_nil, List.reverse_reverse, List.map_cons, hsymbols,
      List.intercalate_cons_cons_left, List.cons_append,
      ← foldlM_firstItem hfirst] at hitems
    rw [List.map_cons, hsymbols, List.intercalate_cons_cons_left]
    exact hitems

theorem Builds.object {fields : List (String × Json)}
    (h : ∀ field ∈ fields, Builds field.2.symbols field.2) :
    Builds (Json.object fields).symbols (.object fields) := by
  intro frames
  rw [symbols, fieldSymbols_eq_map]
  cases fields with
  | nil => rfl
  | cons field fields =>
    have hfields := foldlM_intercalate
      (fun field : String × Json => .text field.1 :: .colon :: field.2.symbols)
      .closeObject
      (fun done => ⟨frames, .name done⟩)
      (fun done => ⟨frames, .after (.object done.reverse)⟩)
      (List.cons_ne_nil field fields)
      (fun piece hmem done =>
        ⟨_, h piece hmem (.object done piece.1 :: frames), rfl, rfl⟩) []
    -- the name of the first field is taken like that of any other
    rw [List.append_nil, List.reverse_reverse, List.map_cons,
      List.intercalate_cons_cons_left] at hfields
    rw [List.map_cons, List.intercalate_cons_cons_left]
    exact hfields

theorem builds_symbols {json : Json} (h : json.isWritable = true) :
    Builds json.symbols json := by
  induction json using inductionOnParts with
  | null | text _ =>
    intro frames
    rfl
  | bool truth =>
    intro frames
    cases truth <;> rfl
  | number written =>
    intro frames
    change (ofBare? written).map _ >>= pure = _
    rw [ofBare?_of_isNumber h]
    rfl
  | list items ih =>
    apply Builds.list
    intro item hmem
    exact ih item hmem (isWritable_list_iff.mp h item hmem)
  | object fields ih =>
    apply Builds.object
    intro field hmem
    exact ih field hmem (isWritable_object_iff.mp h field hmem)

theorem ofSymbols?_symbols {json : Json} (h : json.isWritable = true) :
    ofSymbols? json.symbols = some json := by
  rw [ofSymbols?, builds_symbols h]
  rfl

/-! ## Cutting -/

/-- The symbols of a text that is cut behind some others, which stand in
reverse. -/
def lex (symbols : List Symbol) (text : List Char) : Option (List Symbol) :=
  (text.foldlM Lexer.step ⟨symbols, .between⟩).bind Lexer.finish?

/-- No number goes on with the text. -/
def IsApart (text : List Char) : Prop :=
  ∀ c, text.head? = some c → isBareChar c = false

/-- The text is cut into the symbols, whatever follows. -/
def Lexes (text : List Char) (added : List Symbol) : Prop :=
  ∀ symbols rest, lex symbols (text ++ rest) = lex (added.reverse ++ symbols) rest

/-- The text is cut into the symbols in front of what no number goes on with. -/
def LexesBefore (text : List Char) (added : List Symbol) : Prop :=
  ∀ symbols rest, IsApart rest →
    lex symbols (text ++ rest) = lex (added.reverse ++ symbols) rest

theorem lex_append {text : List Char} {symbols symbols' : List Symbol}
    (h : text.foldlM Lexer.step ⟨symbols, .between⟩ = some ⟨symbols', .between⟩)
    (rest : List Char) :
    lex symbols (text ++ rest) = lex symbols' rest := by
  unfold lex
  rw [List.foldlM_append, h]
  rfl

theorem isApart_cons {c : Char} (h : isBareChar c = false) (rest : List Char) :
    IsApart (c :: rest) := by
  intro d hd
  obtain rfl := Option.some.inj hd
  exact h

theorem IsApart.append {text : List Char} (h : IsApart text) (hne : text ≠ [])
    (rest : List Char) :
    IsApart (text ++ rest) := by
  obtain ⟨c, text, rfl⟩ := List.exists_cons_of_ne_nil hne
  exact isApart_cons (h c rfl) (text ++ rest)

theorem lexes_nil : Lexes [] [] := fun _ _ => rfl

theorem Lexes.append {front back : List Char} {added added' : List Symbol}
    (h : Lexes front added) (h' : Lexes back added') :
    Lexes (front ++ back) (added ++ added') := by
  intro symbols rest
  rw [List.append_assoc, h, h', List.reverse_append, List.append_assoc]

theorem Lexes.before {text : List Char} {added : List Symbol}
    (h : Lexes text added) : LexesBefore text added := by
  intro symbols rest _
  exact h symbols rest

theorem Lexes.append_before {front back : List Char}
    {added added' : List Symbol} (h : Lexes front added)
    (h' : LexesBefore back added') :
    LexesBefore (front ++ back) (added ++ added') := by
  intro symbols rest hrest
  rw [List.append_assoc, h, h' _ _ hrest, List.reverse_append, List.append_assoc]

theorem LexesBefore.append {front back : List Char} {added added' : List Symbol}
    (h : LexesBefore front added) (h' : Lexes back added')
    (hapart : IsApart back) (hne : back ≠ []) :
    Lexes (front ++ back) (added ++ added') := by
  intro symbols rest
  rw [List.append_assoc, h _ _ (hapart.append hne rest), h',
    List.reverse_append, List.append_assoc]

/-! ### Blanks and marks -/

theorem lexes_singleton {c : Char} {added : List Symbol}
    (h : ∀ symbols,
      Lexer.stepBetween symbols c = some ⟨added.reverse ++ symbols, .between⟩) :
    Lexes [c] added := by
  intro symbols rest
  apply lex_append
  rw [List.foldlM_cons]
  exact congrArg (· >>= _) (h symbols)

theorem lexes_replicate_space (n : Nat) : Lexes (List.replicate n ' ') [] := by
  induction n with
  | zero => exact lexes_nil
  | succ n ih =>
    have hspace : Lexes [' '] [] := lexes_singleton fun _ => rfl
    exact hspace.append ih

/-! ### Strings -/

theorem hexValue?_digitChar :
    ∀ d < 16, Lexer.hexValue? (Nat.digitChar d) = some d := by
  decide

/-- A unit below the halves of pairs is a character. -/
theorem endUnit_of_lt {value : Nat} (h : value < 0xD800) (taken : List Char) :
    Lexer.endUnit taken none value = some (.text (Char.ofNat value :: taken)) := by
  unfold Lexer.endUnit
  rw [if_neg (by omega), if_neg (by omega)]

/-- A control character is read back from its number. -/
theorem foldlM_unit {c : Char} (h : c.toNat < 0x20) (symbols : List Symbol)
    (taken : List Char) :
    ['\\', 'u', '0', '0', Nat.digitChar (c.toNat / 16),
      Nat.digitChar (c.toNat % 16)].foldlM Lexer.step ⟨symbols, .text taken⟩ =
      some ⟨symbols, .text (c :: taken)⟩ := by
  have hzero : Lexer.hexValue? '0' = some 0 := rfl
  have hhigh := hexValue?_digitChar (c.toNat / 16) (by omega)
  have hlow := hexValue?_digitChar (c.toNat % 16) (by omega)
  have hvalue : c.toNat / 16 * 16 + c.toNat % 16 = c.toNat := Nat.div_add_mod' _ _
  have hend := endUnit_of_lt (Nat.lt_trans h (by decide)) taken
  rw [Char.ofNat_toNat] at hend
  simp [Lexer.step, hzero, hhigh, hlow, hvalue, hend]

/-- A character is read back from the way it is written in a string. -/
theorem foldlM_escapedChar (c : Char) (symbols : List Symbol) (taken : List Char) :
    (escapedChar c).foldlM Lexer.step ⟨symbols, .text taken⟩ =
      some ⟨symbols, .text (c :: taken)⟩ := by
  unfold escapedChar
  split
  · rfl
  · rfl
  · rfl
  · rfl
  · rfl
  · rfl
  · rfl
  · next hquote hbackslash _ _ _ _ _ =>
    split
    · next hcontrol => exact foldlM_unit hcontrol symbols taken
    · next hcontrol =>
      rw [List.foldlM_cons]
      simp only [Lexer.step]
      rw [if_neg hquote, if_neg hbackslash, if_neg hcontrol]
      rfl

theorem foldlM_flatMap_escapedChar (text : List Char) (symbols : List Symbol)
    (taken : List Char) :
    (text.flatMap escapedChar).foldlM Lexer.step ⟨symbols, .text taken⟩ =
      some ⟨symbols, .text (text.reverse ++ taken)⟩ := by
  induction text generalizing taken with
  | nil => rfl
  | cons c text ih =>
    rw [List.flatMap_cons, List.foldlM_append, foldlM_escapedChar,
      List.reverse_cons, List.append_assoc]
    exact ih (c :: taken)

theorem lexes_quote (content : String) :
    Lexes (quote content).toList [.text content] := by
  intro symbols rest
  apply lex_append
  rw [quote, String.toList_ofList, List.foldlM_append, List.foldlM_cons]
  change (content.toList.flatMap escapedChar).foldlM Lexer.step
    ⟨symbols, .text []⟩ >>= _ = _
  rw [foldlM_flatMap_escapedChar, List.append_nil]
  change some (Lexer.emit symbols
    (.text (String.ofList content.toList.reverse.reverse))) = _
  rw [List.reverse_reverse, String.ofList_toList]
  rfl

/-! ### Numbers and constants -/

theorem stepBetween_of_isBareChar {c : Char} (h : isBareChar c = true)
    (symbols : List Symbol) :
    Lexer.stepBetween symbols c = some ⟨symbols, .bare [c]⟩ := by
  unfold Lexer.stepBetween
  split
  · cases h
  · cases h
  · cases h
  · cases h
  · cases h
  · cases h
  · cases h
  · have hblank : ¬ Lexer.isJsonBlank c = true := by
      intro hblank
      simp only [Lexer.isJsonBlank, Bool.or_eq_true, beq_iff_eq] at hblank
      rcases hblank with ((rfl | rfl) | rfl) | rfl <;> cases h
    rw [if_neg hblank, if_pos h]

theorem foldlM_bare {text : List Char} (h : ∀ c ∈ text, isBareChar c = true)
    (symbols : List Symbol) (taken : List Char) :
    text.foldlM Lexer.step ⟨symbols, .bare taken⟩ =
      some ⟨symbols, .bare (text.reverse ++ taken)⟩ := by
  induction text generalizing taken with
  | nil => rfl
  | cons c text ih =>
    obtain ⟨hc, htext⟩ := List.forall_mem_cons.mp h
    rw [List.foldlM_cons, List.reverse_cons, List.append_assoc]
    simp only [Lexer.step]
    rw [if_pos hc]
    exact ih htext (c :: taken)

/-- A number or a constant ends in front of what it does not go on with. -/
theorem lexesBefore_bare {written : String} (hne : written.toList ≠ [])
    (h : ∀ c ∈ written.toList, isBareChar c = true) :
    LexesBefore written.toList [.bare written] := by
  intro symbols rest hrest
  have hbare : written.toList.foldlM Lexer.step ⟨symbols, .between⟩ =
      some ⟨symbols, .bare written.toList.reverse⟩ := by
    obtain ⟨c, text, heq⟩ := List.exists_cons_of_ne_nil hne
    rw [heq] at h ⊢
    obtain ⟨hc, htext⟩ := List.forall_mem_cons.mp h
    rw [List.foldlM_cons, List.reverse_cons, ← foldlM_bare htext]
    exact congrArg (· >>= _) (stepBetween_of_isBareChar hc symbols)
  have hwritten : String.ofList written.toList.reverse.reverse = written := by
    rw [List.reverse_reverse, String.ofList_toList]
  unfold lex
  rw [List.foldlM_append, hbare]
  cases rest with
  | nil =>
    change some (Symbol.bare (String.ofList written.toList.reverse.reverse) ::
      symbols).reverse = _
    rw [hwritten]
    rfl
  | cons c rest =>
    have hstep : Lexer.step ⟨symbols, .bare written.toList.reverse⟩ c =
        Lexer.step ⟨.bare written :: symbols, .between⟩ c := by
      simp only [Lexer.step]
      rw [if_neg (Bool.eq_false_iff.mp (hrest c rfl)), hwritten]
    change (Lexer.step _ c >>= _).bind _ = (Lexer.step _ c >>= _).bind _
    rw [hstep]
    rfl

/-! ### Values -/

/-- A field is its name, a colon, perhaps blanks, and its value. -/
theorem lexesBefore_field (name : String) {colon text : List Char}
    {added : List Symbol} (hcolon : Lexes colon [.colon])
    (h : LexesBefore text added) :
    LexesBefore ((quote name).toList ++ (colon ++ text))
      (.text name :: .colon :: added) :=
  (lexes_quote name).append_before (hcolon.append_before h)

theorem lexesBefore_number {written : String} (h : isNumber written.toList = true) :
    LexesBefore written.toList [.bare written] := by
  apply lexesBefore_bare
  · intro hnil
    rw [hnil] at h
    cases h
  · exact isBareChar_of_isNumber h

/-- A comma and some blanks separate the parts of an array or an object, and a
mark behind some blanks closes it. -/
structure Closes (separator close : List Char) (mark : Symbol) : Prop where
  separates : Lexes (',' :: separator) [.comma]
  closes : Lexes close [mark]
  apart : IsApart close
  nonempty : close ≠ []

/-- Texts with separators between them, in front of what closes them. -/
theorem Closes.intercalate {separator close : List Char} {mark : Symbol}
    (hcloses : Closes separator close mark) {α : Type} {write : α → List Char}
    {spell : α → List Symbol} {pieces : List α}
    (h : ∀ piece ∈ pieces, LexesBefore (write piece) (spell piece)) :
    Lexes ((',' :: separator).intercalate (pieces.map write) ++ close)
      ([Symbol.comma].intercalate (pieces.map spell) ++ [mark]) := by
  induction pieces with
  | nil => exact hcloses.closes
  | cons piece pieces ih =>
    obtain ⟨hpiece, hpieces⟩ := List.forall_mem_cons.mp h
    cases pieces with
    | nil =>
      rw [List.map_singleton, List.map_singleton, List.intercalate_singleton,
        List.intercalate_singleton]
      exact hpiece.append hcloses.closes hcloses.apart hcloses.nonempty
    | cons next pieces =>
      rw [List.map_cons, List.map_cons, List.map_cons, List.map_cons,
        List.intercalate_cons_cons, List.intercalate_cons_cons,
        List.append_assoc, List.append_assoc, List.append_assoc,
        List.append_assoc]
      have hrest := hcloses.separates.append (ih hpieces)
      exact hpiece.append hrest (isApart_cons (by decide) _) (List.cons_ne_nil _ _)

theorem lexesBefore_list {items : List Json} {write : Json → List Char}
    {opening separator close : List Char} (hopening : Lexes opening [.openList])
    (hcloses : Closes separator close .closeList)
    (h : ∀ item ∈ items, LexesBefore (write item) item.symbols) :
    LexesBefore
      (opening ++ ((',' :: separator).intercalate (items.map write) ++ close))
      (Json.list items).symbols := by
  rw [symbols, itemSymbols_eq_map]
  exact (hopening.append (hcloses.intercalate h)).before

theorem lexesBefore_object {fields : List (String × Json)}
    {write : String × Json → List Char} {opening separator close : List Char}
    (hopening : Lexes opening [.openObject])
    (hcloses : Closes separator close .closeObject)
    (h : ∀ field ∈ fields,
      LexesBefore (write field) (.text field.1 :: .colon :: field.2.symbols)) :
    LexesBefore
      (opening ++ ((',' :: separator).intercalate (fields.map write) ++ close))
      (Json.object fields).symbols := by
  rw [symbols, fieldSymbols_eq_map]
  exact (hopening.append (hcloses.intercalate h)).before

/-! ### Compact text -/

theorem compactItems_eq_map (items : List Json) :
    compactItems items = items.map compact := by
  induction items with
  | nil => rfl
  | cons item items ih => rw [compactItems, ih, List.map_cons]

theorem compactFields_eq_map (fields : List (String × Json)) :
    compactFields fields =
      fields.map fun field => quote field.1 ++ ":" ++ field.2.compact := by
  induction fields with
  | nil => rfl
  | cons field fields ih => rw [compactFields, ih, List.map_cons]

theorem toList_compact_list (items : List Json) : (Json.list items).compact.toList =
    ['['] ++ ([','].intercalate (items.map fun item => item.compact.toList) ++
      [']']) := by
  rw [compact, compactItems_eq_map]
  simp [Function.comp_def]

theorem toList_compact_object (fields : List (String × Json)) :
    (Json.object fields).compact.toList =
    ['\x7b'] ++ ([','].intercalate (fields.map fun field =>
      (quote field.1).toList ++ ([':'] ++ field.2.compact.toList)) ++
        ['\x7d']) := by
  rw [compact, compactFields_eq_map]
  simp [Function.comp_def]

theorem lexesBefore_compact {json : Json} (h : json.isWritable = true) :
    LexesBefore json.compact.toList json.symbols := by
  have hcomma : Lexes [','] [.comma] := lexes_singleton fun _ => rfl
  induction json using inductionOnParts with
  | null => exact lexesBefore_bare (by decide) (List.all_eq_true.mp (by decide))
  | bool truth =>
    cases truth <;>
      exact lexesBefore_bare (by decide) (List.all_eq_true.mp (by decide))
  | number written => exact lexesBefore_number h
  | text content => exact (lexes_quote content).before
  | list items ih =>
    have hcloses : Closes [] [']'] .closeList :=
      ⟨hcomma, lexes_singleton fun _ => rfl, isApart_cons (by decide) [],
        List.cons_ne_nil _ _⟩
    rw [toList_compact_list]
    apply lexesBefore_list (lexes_singleton fun _ => rfl) hcloses
    intro item hmem
    exact ih item hmem (isWritable_list_iff.mp h item hmem)
  | object fields ih =>
    have hcloses : Closes [] ['\x7d'] .closeObject :=
      ⟨hcomma, lexes_singleton fun _ => rfl, isApart_cons (by decide) [],
        List.cons_ne_nil _ _⟩
    rw [toList_compact_object]
    apply lexesBefore_object (lexes_singleton fun _ => rfl) hcloses
    intro field hmem
    exact lexesBefore_field field.1 (lexes_singleton fun _ => rfl)
      (ih field hmem (isWritable_object_iff.mp h field hmem))

/-! ### Indented text -/

theorem prettyItems_eq_map (level : Nat) (items : List Json) :
    prettyItems level items =
      items.map fun item => indent level ++ item.pretty level := by
  induction items with
  | nil => rfl
  | cons item items ih => rw [prettyItems, ih, List.map_cons]

theorem prettyFields_eq_map (level : Nat) (fields : List (String × Json)) :
    prettyFields level fields =
    fields.map fun field =>
      indent level ++ quote field.1 ++ ": " ++ field.2.pretty level := by
  induction fields with
  | nil => rfl
  | cons field fields ih => rw [prettyFields, ih, List.map_cons]

theorem toList_pretty_list {items : List Json} (hne : items ≠ []) (level : Nat) :
    ((Json.list items).pretty level).toList =
      ['[', '\n'] ++ ([',', '\n'].intercalate (items.map fun item =>
        (indent (level + 1)).toList ++ (item.pretty (level + 1)).toList) ++
          ('\n' :: ((indent level).toList ++ [']']))) := by
  obtain ⟨item, items, rfl⟩ := List.exists_cons_of_ne_nil hne
  rw [pretty, prettyItems_eq_map]
  simp [Function.comp_def, -List.map_cons]

theorem toList_pretty_object {fields : List (String × Json)} (hne : fields ≠ [])
    (level : Nat) :
    ((Json.object fields).pretty level).toList =
      ['\x7b', '\n'] ++ ([',', '\n'].intercalate (fields.map fun field =>
        (indent (level + 1)).toList ++ ((quote field.1).toList ++
          ([':', ' '] ++ (field.2.pretty (level + 1)).toList))) ++
            ('\n' :: ((indent level).toList ++ ['\x7d']))) := by
  obtain ⟨field, fields, rfl⟩ := List.exists_cons_of_ne_nil hne
  rw [pretty, prettyFields_eq_map]
  simp [Function.comp_def, -List.map_cons]

theorem lexes_indent (level : Nat) : Lexes (indent level).toList [] := by
  rw [indent, String.toList_ofList]
  exact lexes_replicate_space (2 * level)

/-- What closes an array or an object stands in a line of its own. -/
theorem closes_indented {c : Char} {mark : Symbol} (h : Lexes [c] [mark])
    (level : Nat) :
    Closes ['\n'] ('\n' :: ((indent level).toList ++ [c])) mark where
  separates :=
    (lexes_singleton fun _ => rfl : Lexes [','] [.comma]).append
      (lexes_singleton fun _ => rfl)
  closes :=
    (lexes_singleton fun _ => rfl : Lexes ['\n'] []).append
      ((lexes_indent level).append h)
  apart := isApart_cons (by decide) _
  nonempty := List.cons_ne_nil _ _

theorem lexesBefore_pretty {json : Json} (h : json.isWritable = true)
    (level : Nat) :
    LexesBefore (json.pretty level).toList json.symbols := by
  have hnewline : Lexes ['\n'] [] := lexes_singleton fun _ => rfl
  have hopenList : Lexes ['['] [.openList] := lexes_singleton fun _ => rfl
  have hopenObject : Lexes ['\x7b'] [.openObject] := lexes_singleton fun _ => rfl
  have hcolon : Lexes [':', ' '] [.colon] :=
    (lexes_singleton fun _ => rfl : Lexes [':'] [.colon]).append
      (lexes_singleton fun _ => rfl)
  induction json using inductionOnParts generalizing level with
  | null | number _ | text _ =>
    have hcompact := lexesBefore_compact h
    exact hcompact
  | bool truth =>
    have hcompact := lexesBefore_compact h
    cases truth <;> exact hcompact
  | list items ih =>
    by_cases hne : items = []
    · have hcompact := lexesBefore_compact h
      rw [hne] at hcompact ⊢
      exact hcompact
    rw [toList_pretty_list hne]
    apply lexesBefore_list (hopenList.append hnewline)
      (closes_indented (lexes_singleton fun _ => rfl) level)
    intro item hmem
    exact (lexes_indent (level + 1)).append_before
      (ih item hmem (isWritable_list_iff.mp h item hmem) (level + 1))
  | object fields ih =>
    by_cases hne : fields = []
    · have hcompact := lexesBefore_compact h
      rw [hne] at hcompact ⊢
      exact hcompact
    rw [toList_pretty_object hne]
    apply lexesBefore_object (hopenObject.append hnewline)
      (closes_indented (lexes_singleton fun _ => rfl) level)
    intro field hmem
    exact (lexes_indent (level + 1)).append_before (lexesBefore_field field.1 hcolon
      (ih field hmem (isWritable_object_iff.mp h field hmem) (level + 1)))

/-! ## Reading -/

/-- A text that is cut into the symbols of a value is read as this value. -/
theorem read?_of_lexesBefore {text : String} {json : Json}
    (htext : LexesBefore text.toList json.symbols)
    (h : json.isWritable = true) : read? text = some json := by
  have hcut : symbols? text.toList = some json.symbols := by
    have hlex := htext [] [] nofun
    rw [List.append_nil, List.append_nil] at hlex
    change lex [] text.toList = _
    rw [hlex]
    exact congrArg some (List.reverse_reverse _)
  rw [read?, hcut]
  exact ofSymbols?_symbols h

theorem read?_compact {json : Json} (h : json.isWritable = true) :
    read? json.compact = some json :=
  read?_of_lexesBefore (lexesBefore_compact h) h

theorem read?_indented {json : Json} (h : json.isWritable = true) :
    read? json.indented = some json :=
  read?_of_lexesBefore (lexesBefore_pretty h 0) h

end Pratt.Json
