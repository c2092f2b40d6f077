import Pratt.Expr.Json
import Pratt.Proofs.Json.Text

set_option autoImplicit false

/-!
# Expressions are read back from JSON

A tree has many forms in JSON (`Expr.IsForm`): at each node, independently of
all others, the fields of an object may stand in any order and among others of
unknown names, or the parts may stand in an array behind the kind. `Expr.toJson`
writes one of these forms (`Expr.isForm_toJson`), and the tree is read back from
every one of them (`Expr.ofJson?_of_isForm`), and so from their texts
(`Expr.IsForm.readAs`).
-/

namespace Pratt.Expr

/-! ## Forms -/

/-- The kind of a node. -/
def kind : Expr → Kind
  | .value _ => .value
  | .unary _ _ => .unary
  | .binary _ _ _ => .binary
  | .conditional _ _ _ => .conditional
  | .call _ _ => .call

/-- The kind and the parts of a node stand under their names in any order, and
fields of other names are among them. -/
def HoldParts {α : Type} (kind : Kind) (tag : α) (parts : List α)
    (fields : List (String × α)) : Prop :=
  ∃ others : List (String × α),
    (∀ field ∈ others, field.1 ∉ "type" :: kind.parts) ∧
    fields.Perm (("type", tag) :: (kind.parts.zip parts ++ others))

mutual

/-- The value is a form of the tree. -/
inductive IsForm : Expr → Json → Prop
  /-- The fields hold the kind and the parts. -/
  | object {tree : Expr} {parts : List Json} {fields : List (String × Json)}
      (hparts : AreParts tree parts)
      (hfields : HoldParts tree.kind (.text tree.kind.tag) parts fields) :
      IsForm tree (.object fields)
  /-- The parts stand in order behind the kind. -/
  | list {tree : Expr} {parts : List Json} (hparts : AreParts tree parts) :
      IsForm tree (.list (.text tree.kind.tag :: parts))

/-- The values are forms of the parts of the tree, in the order in which
its kind names them. -/
inductive AreParts : Expr → List Json → Prop
  | value (text : String) : AreParts (.value text) [.text text]
  | unary {operand : Expr} {form : Json} (operator : String)
      (hoperand : IsForm operand form) :
      AreParts (.unary operator operand) [.text operator, form]
  | binary {left right : Expr} {form form' : Json} (operator : String)
      (hleft : IsForm left form) (hright : IsForm right form') :
      AreParts (.binary operator left right) [.text operator, form, form']
  | conditional {condition whenTrue whenFalse : Expr} {form form' form'' : Json}
      (hcondition : IsForm condition form) (htrue : IsForm whenTrue form')
      (hfalse : IsForm whenFalse form'') :
      AreParts (.conditional condition whenTrue whenFalse) [form, form', form'']
  | call {callee : Expr} {arguments : List Expr} {form : Json}
      {forms : List Json} (hcallee : IsForm callee form)
      (harguments : AreForms arguments forms) :
      AreParts (.call callee arguments) [form, .list forms]

/-- The values are forms of the trees. -/
inductive AreForms : List Expr → List Json → Prop
  | nil : AreForms [] []
  | cons {tree : Expr} {trees : List Expr} {form : Json} {forms : List Json}
      (htree : IsForm tree form) (htrees : AreForms trees forms) :
      AreForms (tree :: trees) (form :: forms)

end

/-! ## Writing -/

/-- Nothing but the kind and the parts, in this order. -/
theorem AreParts.isForm {tree : Expr} {parts : List Json}
    (h : AreParts tree parts) :
    IsForm tree (.object
      (("type", .text tree.kind.tag) :: tree.kind.parts.zip parts)) := by
  apply IsForm.object h
  exact ⟨[], nofun, by rw [List.append_nil]⟩

mutual

theorem isForm_toJson : (tree : Expr) → IsForm tree tree.toJson
  | .value text => (AreParts.value text).isForm
  | .unary operator operand =>
    (AreParts.unary operator (isForm_toJson operand)).isForm
  | .binary operator left right =>
    (AreParts.binary operator (isForm_toJson left) (isForm_toJson right)).isForm
  | .conditional condition whenTrue whenFalse =>
    (AreParts.conditional (isForm_toJson condition) (isForm_toJson whenTrue)
      (isForm_toJson whenFalse)).isForm
  | .call callee arguments =>
    (AreParts.call (isForm_toJson callee) (areForms_toJsons arguments)).isForm

theorem areForms_toJsons : (trees : List Expr) → AreForms trees (toJsons trees)
  | [] => .nil
  | tree :: trees => .cons (isForm_toJson tree) (areForms_toJsons trees)

end

/-! ## Fields -/

/-- A field is found wherever it stands. -/
theorem field?_perm {α : Type} {fields fields' : List (String × α)}
    (h : fields.Perm fields') {name : String} {x : α}
    (hx : field? name fields' = some x) : field? name fields = some x := by
  have hfilter := h.filter fun field => field.1 = name
  unfold field? at hx ⊢
  split at hx
  · next field heq =>
    rw [heq] at hfilter
    rw [hfilter.eq_singleton]
    exact hx
  · cases hx

/-- A field is found that is the only one of its name. -/
theorem filter_eq_singleton {α : Type} {known : List (String × α)}
    (hnodup : (known.map Prod.fst).Nodup) {name : String} {x : α}
    (hmem : (name, x) ∈ known) :
    known.filter (fun field => field.1 = name) = [(name, x)] := by
  induction known with
  | nil => cases hmem
  | cons field known ih =>
    obtain ⟨hnotMem, hrest⟩ := List.nodup_cons.mp hnodup
    rcases List.mem_cons.mp hmem with rfl | hmem
    · have hnone : known.filter (fun field => field.1 = name) = [] := by
        rw [List.filter_eq_nil_iff]
        intro field hfield hname
        obtain rfl := of_decide_eq_true hname
        exact hnotMem (List.mem_map.mpr ⟨field, hfield, rfl⟩)
      rw [List.filter_cons_of_pos (by simp), hnone]
    · have hne : field.1 ≠ name := by
        rintro rfl
        exact hnotMem (List.mem_map.mpr ⟨_, hmem, rfl⟩)
      rw [List.filter_cons_of_neg (by simpa using hne), ih hrest hmem]

/-- Fields of other names do not matter. -/
theorem field?_append {α : Type} {known others : List (String × α)}
    (hnodup : (known.map Prod.fst).Nodup) {name : String} {x : α}
    (hmem : (name, x) ∈ known) (hothers : ∀ field ∈ others, field.1 ≠ name) :
    field? name (known ++ others) = some x := by
  have hnone : others.filter (fun field => field.1 = name) = [] := by
    rw [List.filter_eq_nil_iff]
    intro field hfield
    simpa using hothers field hfield
  unfold field?
  rw [List.filter_append, filter_eq_singleton hnodup hmem, hnone]
  rfl

theorem mapM_field? {α : Type} {fields : List (String × α)}
    {names : List String} {values : List α}
    (hlength : names.length = values.length)
    (h : ∀ pair ∈ names.zip values, field? pair.1 fields = some pair.2) :
    names.mapM (fun name => field? name fields) = some values := by
  induction names generalizing values with
  | nil =>
    obtain rfl := List.length_eq_zero_iff.mp hlength.symm
    rfl
  | cons name names ih =>
    cases values with
    | nil => cases hlength
    | cons value values =>
      obtain ⟨hvalue, hvalues⟩ := List.forall_mem_cons.mp h
      rw [List.mapM_cons, hvalue, ih (Nat.succ.inj hlength) hvalues]
      rfl

/-! ## Reading -/

theorem readings_eq_map (items : List Json) :
    readings items = items.map reading := by
  induction items with
  | nil => rfl
  | cons item items ih => rw [readings, ih, List.map_cons]

theorem fieldReadings_eq_map (fields : List (String × Json)) :
    fieldReadings fields = fields.map fun field => (field.1, reading field.2) := by
  induction fields with
  | nil => rfl
  | cons field fields ih => rw [fieldReadings, ih, List.map_cons]

theorem Kind.ofTag?_tag (kind : Kind) : ofTag? kind.tag = some kind := by
  cases kind <;> rfl

theorem Kind.nodup_type_cons_parts (kind : Kind) :
    ("type" :: kind.parts).Nodup := by
  cases kind <;> decide

theorem AreParts.length_eq {tree : Expr} {parts : List Json}
    (h : AreParts tree parts) :
    tree.kind.parts.length = parts.length := by
  cases h <;> rfl

namespace HoldParts

variable {α : Type} {kind : Kind} {tag : α} {parts : List α}
  {fields : List (String × α)}

theorem field?_eq (h : HoldParts kind tag parts fields)
    (hlength : kind.parts.length = parts.length) {name : String} {x : α}
    (hmem : (name, x) ∈ ("type", tag) :: kind.parts.zip parts) :
    field? name fields = some x := by
  obtain ⟨others, hothers, hperm⟩ := h
  have hnames :
      (("type", tag) :: kind.parts.zip parts).map Prod.fst =
        "type" :: kind.parts := by
    rw [List.map_cons, List.map_fst_zip (Nat.le_of_eq hlength)]
  apply field?_perm hperm
  apply field?_append (hnames ▸ kind.nodup_type_cons_parts) hmem
  rintro field hfield rfl
  apply hothers field hfield
  rw [← hnames]
  exact List.mem_map.mpr ⟨_, hmem, rfl⟩

theorem field?_type (h : HoldParts kind tag parts fields)
    (hlength : kind.parts.length = parts.length) :
    field? "type" fields = some tag :=
  h.field?_eq hlength List.mem_cons_self

theorem mapM_parts (h : HoldParts kind tag parts fields)
    (hlength : kind.parts.length = parts.length) :
    kind.parts.mapM (fun name => field? name fields) = some parts := by
  apply mapM_field? hlength
  intro pair hpair
  exact h.field?_eq hlength (List.mem_cons_of_mem _ hpair)

theorem map {β : Type} (h : HoldParts kind tag parts fields) (f : α → β) :
    HoldParts kind (f tag) (parts.map f)
      (fields.map fun field => (field.1, f field.2)) := by
  obtain ⟨others, hothers, hperm⟩ := h
  refine ⟨others.map fun field => (field.1, f field.2),
    List.forall_mem_map.mpr hothers, ?_⟩
  rw [List.zip_map_right]
  have hmap := hperm.map fun field => (field.1, f field.2)
  rw [List.map_cons, List.map_append] at hmap
  exact hmap

theorem ofFields?_eq {tag : Reading} {parts : List Reading}
    {fields : List (String × Reading)} (h : HoldParts kind tag parts fields)
    (hlength : kind.parts.length = parts.length)
    (htag : tag.kind? = some kind) :
    ofFields? fields = ofParts? kind parts := by
  unfold ofFields?
  rw [h.field?_type hlength]
  change tag.kind? >>= _ = _
  rw [htag]
  change (kind.parts.mapM fun name => field? name fields) >>= _ = _
  rw [h.mapM_parts hlength]
  rfl

end HoldParts

mutual

theorem IsForm.tree?_reading :
    {tree : Expr} → {json : Json} → IsForm tree json →
    (reading json).tree? = some tree
  | tree, _, @IsForm.object _ parts _ hparts hfields => by
    have hlength : tree.kind.parts.length = (parts.map reading).length :=
      hparts.length_eq.trans (List.length_map reading).symm
    rw [reading, fieldReadings_eq_map]
    exact ((hfields.map reading).ofFields?_eq hlength
      tree.kind.ofTag?_tag).trans hparts.ofParts?_map_reading
  | tree, _, .list hparts => by
    rw [reading, readings, readings_eq_map]
    change (Kind.ofTag? tree.kind.tag >>= _) = _
    rw [Kind.ofTag?_tag]
    exact hparts.ofParts?_map_reading

theorem AreParts.ofParts?_map_reading :
    {tree : Expr} → {parts : List Json} → AreParts tree parts →
    ofParts? tree.kind (parts.map reading) = some tree
  | _, _, .value text => rfl
  | _, _, .unary operator hoperand => by
    simp [kind, ofParts?, reading, hoperand.tree?_reading]
  | _, _, .binary operator hleft hright => by
    simp [kind, ofParts?, reading, hleft.tree?_reading, hright.tree?_reading]
  | _, _, .conditional hcondition htrue hfalse => by
    simp [kind, ofParts?, hcondition.tree?_reading, htrue.tree?_reading,
      hfalse.tree?_reading]
  | _, _, .call hcallee harguments => by
    simp [kind, ofParts?, reading, readings_eq_map, hcallee.tree?_reading,
      harguments.mapM_tree?]

theorem AreForms.mapM_tree? :
    {trees : List Expr} → {forms : List Json} → AreForms trees forms →
    (forms.map reading).mapM Reading.tree? = some trees
  | _, _, .nil => rfl
  | _, _, .cons htree htrees => by
    rw [List.map_cons, List.mapM_cons, htree.tree?_reading, htrees.mapM_tree?]
    rfl

end

theorem IsForm.namesKind {tree : Expr} {json : Json} (h : IsForm tree json) :
    namesKind json = true := by
  cases h with
  | object hparts hfields =>
    rw [Expr.namesKind, hfields.field?_type hparts.length_eq]
  | list => rfl

/-- A tree is read back from any of its forms. -/
theorem ofJson?_of_isForm {tree : Expr} {json : Json} (h : IsForm tree json) :
    ofJson? json = some tree := by
  rw [ofJson?, if_pos h.namesKind, h.tree?_reading]

/-! ## Texts -/

mutual

/-- No number occurs in the form that is written. -/
theorem isWritable_toJson : (tree : Expr) → tree.toJson.isWritable = true
  | .value text => rfl
  | .unary operator operand => by
    simp [toJson, Json.isWritable, Json.haveWritable, isWritable_toJson operand]
  | .binary operator left right => by
    simp [toJson, Json.isWritable, Json.haveWritable, isWritable_toJson left,
      isWritable_toJson right]
  | .conditional condition whenTrue whenFalse => by
    simp [toJson, Json.isWritable, Json.haveWritable,
      isWritable_toJson condition, isWritable_toJson whenTrue,
      isWritable_toJson whenFalse]
  | .call callee arguments => by
    simp [toJson, Json.isWritable, Json.haveWritable, isWritable_toJson callee,
      areWritable_toJsons arguments]

theorem areWritable_toJsons :
    (trees : List Expr) → Json.areWritable (toJsons trees) = true
  | [] => rfl
  | tree :: trees => by
    rw [toJsons, Json.areWritable, isWritable_toJson tree,
      areWritable_toJsons trees]
    rfl

end

/-- A value is read as a tree, and so are its texts. -/
structure ReadAs (json : Json) (tree : Expr) : Prop where
  value : ofJson? json = some tree
  compact : (Json.read? json.compact).bind ofJson? = some tree
  indented : (Json.read? json.indented).bind ofJson? = some tree

theorem IsForm.readAs {tree : Expr} {json : Json} (h : IsForm tree json)
    (hwritable : json.isWritable = true) :
    ReadAs json tree where
  value := ofJson?_of_isForm h
  compact := by
    rw [Json.read?_compact hwritable]
    exact ofJson?_of_isForm h
  indented := by
    rw [Json.read?_indented hwritable]
    exact ofJson?_of_isForm h

/-- The texts of a tree are read back as this tree. So is every form of it and,
if the numbers in fields of unknown names are written as JSON writes them, the
texts of this form. -/
theorem json_forms_read_back (tree : Expr) :
    ReadAs tree.toJson tree ∧ ∀ form, IsForm tree form →
      ofJson? form = some tree ∧ (form.isWritable = true → ReadAs form tree) := by
  constructor
  · exact (isForm_toJson tree).readAs (isWritable_toJson tree)
  · intro form hform
    exact ⟨ofJson?_of_isForm hform, hform.readAs⟩

/-- A sum of a negated string and a call. -/
def negatedAndCall : Expr :=
  .binary "+" (.unary "-" (.value "a\"\n\x01"))
    (.call (.value "f") [.value "é", .value "\\"])

/-- A form with fields in another order, two unknown ones, and arrays in
the place of objects. -/
def mixedForm : Json :=
  .object
    [("left", .list [.text "unary", .text "-",
        .object [("value", .text "a\"\n\x01"), ("type", .text "value")]]),
      ("right", .object [("type", .text "call"),
        ("callee", .list [.text "value", .text "f"]),
        ("arguments", .list
          [.object [("value", .text "é"), ("left", .number "-1.5e+3"),
              ("type", .text "value")],
            .list [.text "value", .text "\\"]])]),
      ("line", .list [.null, .bool true, .object []]),
      ("type", .text "binary"), ("operator", .text "+")]

theorem isForm_mixedForm : IsForm negatedAndCall mixedForm := by
  have hleft : ∀ field ∈ [("left", Json.number "-1.5e+3")],
      field.1 ∉ ["type", "value"] := by
    simp
  have hline : ∀ field ∈ [("line", Json.list [.null, .bool true, .object []])],
      field.1 ∉ ["type", "operator", "left", "right"] := by simp
  have hnegated : IsForm (.unary "-" (.value "a\"\n\x01")) _ :=
    .list (.unary _
      (.object (.value _) ⟨[], by simp, @List.perm_append_comm _ [_] [_]⟩))
  have hfirst : IsForm (.value "é") _ :=
    .object (.value _) ⟨_, hleft, @List.perm_append_comm _ [_, _] [_]⟩
  have hcall :=
    (AreParts.call (.list (.value "f"))
      (.cons hfirst (.cons (.list (.value "\\")) .nil))).isForm
  exact .object (.binary "+" hnegated hcall)
    ⟨_, hline, @List.perm_append_comm _ [_, _, _] [_, _]⟩

/-- The form is read back, and so are its texts. -/
theorem json_forms_read_back_mixedForm :
    IsForm negatedAndCall mixedForm ∧ ReadAs mixedForm negatedAndCall := by
  obtain ⟨-, hforms⟩ := json_forms_read_back negatedAndCall
  exact ⟨isForm_mixedForm, (hforms mixedForm isForm_mixedForm).2 (by decide)⟩

end Pratt.Expr
