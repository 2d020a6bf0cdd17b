import PieSyntax.Json.Syntax
import PieSyntax.Proofs.EntryOrder

/-!
# Reading trees back from JSON

Every object in the JSON of a tree names its kind, and what it holds stands under the names of its
fields.  So a tree is read back from the outside in: the kind says which fields to look for and what
to make of them.  That nothing is lost comes down to three facts: no two classes of objects share a
kind, no field is called `kind`, and no class has two fields of one name.

The reader looks fields up by their names.  It therefore makes the same tree of any value that is the
same up to the order of its entries, as the values are that are printed.

## Main results

* `Kind.ofName?_name` — the kind of an object tells its class.
* `recovers_node`, `recovers_expr` — trees are read back.
* `ofTopLevels_lossless` — different forms have different JSON.
-/

namespace PieSyntax

/-! ## Kinds -/

/-- The classes of the objects that trees are written with. -/
inductive Kind where
  | position
  | location
  | located
  | binder
  | typedBinder
  | var
  | tick
  | natLit
  | constant (c : Constant)
  | head (h : Head)
  | app
  | command (c : Command)
  | expr
  deriving DecidableEq

namespace Kind

/-- The kind that an object of the class names. -/
def name : Kind → String
  | .position => "Position"
  | .location => "Location"
  | .located => "Located"
  | .binder => "Binder"
  | .typedBinder => "TypedBinder"
  | .var => "Var"
  | .tick => "Tick"
  | .natLit => "NatLit"
  | .constant c => c.kind
  | .head h => h.kind
  | .app => "App"
  | .command c => c.kind
  | .expr => "Example"

/-- Every class. -/
def all : List Kind :=
  [.position, .location, .located, .binder, .typedBinder, .var, .tick, .natLit, .app, .expr]
    ++ Constant.all.map .constant ++ Head.all.map .head ++ Command.all.map .command

theorem all_complete (k : Kind) : k ∈ all := by
  cases k with
  | constant c => simp [all, Constant.all_complete c]
  | head h => simp [all, Head.all_complete h]
  | command c => simp [all, Command.all_complete c]
  | _ => simp [all]

/-- The class that a kind names, if it names one. -/
def ofName? (s : String) : Option Kind := all.find? fun k => k.name = s

/-- No two classes share a kind. -/
theorem ofName?_name (k : Kind) : ofName? k.name = some k := by
  have h : ∀ k ∈ all, ofName? k.name = some k := by decide +kernel
  exact h k (all_complete k)

end Kind

/-- The fields of a form have different names, none of which is that of its kind. -/
theorem Form.nodup_fields (f : Form) : ("kind" :: f.fields).Nodup := by
  have h : ∀ f ∈ Form.all, ("kind" :: f.fields).Nodup := by decide +kernel
  exact h f (Form.all_complete f)

namespace Json

/-! ## Parts of a value -/

/-- Reads the value of a field, which is smaller than the object. -/
def field {α : Type} (v : Json) (k : String) (read : (w : Json) → sizeOf w < sizeOf v → Option α) :
    Option α :=
  match h : v.valueAt? k with
  | some w => read w (sizeOf_valueAt? h)
  | none => none

/-- Reads the elements of an array, which are smaller than the array. -/
def elements {α : Type} (v : Json) (read : (w : Json) → sizeOf w < sizeOf v → Option α) :
    Option (List α) :=
  match v with
  | .array vs => vs.attach.mapM fun w => read w.1 (by
      have hlt := List.sizeOf_lt_of_mem w.2
      simp only [array.sizeOf_spec]
      omega)
  | _ => none

/-- The class of an object. -/
def kind? (v : Json) : Option Kind :=
  match v.valueAt? "kind" with
  | some (.string s) => Kind.ofName? s
  | _ => none

/-! ## Names, numbers and places -/

/-- The string that the value is. -/
def toString? : Json → Option String
  | .string s => some s
  | _ => none

/-- The name that is written as the string. -/
def toText? (v : Json) : Option Text := v.toString?.map String.toList

/-- The number that the value is. -/
def toNumber? : Json → Option Int
  | .number n => some n
  | _ => none

/-- The position that the object describes. -/
def toPosition? (v : Json) : Option Position :=
  match v.kind? with
  | some .position => do
    let line ← v.field "line" fun w _ => w.toNumber?
    let column ← v.field "column" fun w _ => w.toNumber?
    return ⟨line, column⟩
  | _ => none

/-- The location that the object describes. -/
def toLocation? (v : Json) : Option Location :=
  match v.kind? with
  | some .location => do
    let source ← v.field "source" fun w _ => w.toString?
    let start ← v.field "start" fun w _ => w.toPosition?
    let finish ← v.field "end" fun w _ => w.toPosition?
    return ⟨source, start, finish⟩
  | _ => none

/-- The located value that the object describes. -/
def toLocated? {α : Type} (v : Json) (read : (w : Json) → sizeOf w < sizeOf v → Option α) :
    Option (Located α) :=
  match v.kind? with
  | some .located => do
    let loc ← v.field "loc" fun w _ => w.toLocation?
    let value ← v.field "value" read
    return ⟨loc, value⟩
  | _ => none

/-- The bound name that the object describes. -/
def toBinder? (v : Json) : Option Binder :=
  match v.kind? with
  | some .binder => do
    let loc ← v.field "loc" fun w _ => w.toLocation?
    let name ← v.field "name" fun w _ => w.toText?
    return ⟨loc, name⟩
  | _ => none

/-! ## Trees -/

/-- The expressions under the given names, in order. -/
def toArguments? (read : String → Option Expr) : (ks : List String) → Option (Arguments ks.length)
  | [] => some .nil
  | k :: ks => do
    let first ← read k
    let rest ← toArguments? read ks
    return .cons first rest

mutual

/-- The node that the object describes. -/
def toNode? (v : Json) : Option Node :=
  match v.kind? with
  | some .var => do return .var (← v.field "name" fun w _ => w.toText?)
  | some .tick => do return .tick (← v.field "name" fun w _ => w.toText?)
  | some .natLit => do return .natLit (← v.field "value" fun w _ => w.toNumber?.bind Int.toNat?)
  | some (.constant c) => some (.constant c)
  | some (.head (.form f)) => do
    return .form f (← toArguments? (fun k => v.field k fun w _ => toExpr? w) f.fields)
  | some (.head .lambda) => do
    let binders ← v.field "binders" fun w _ => w.elements fun b _ => b.toBinder?
    let body ← v.field "body" fun w _ => toExpr? w
    return .lambda binders body
  | some (.head (.quantifier q)) => do
    let binders ← v.field "binders" fun w _ => w.elements fun b _ => toTypedBinder? b
    let body ← v.field "body" fun w _ => toExpr? w
    return .quantified q binders body
  | some (.head .arrow) => do
    let arg ← v.field "arg" fun w _ => toExpr? w
    let rest ← v.field "rest" fun w _ => w.elements fun e _ => toExpr? e
    return .arrow arg rest
  | some .app => do
    let head ← v.field "fun" fun w _ => toExpr? w
    let args ← v.field "args" fun w _ => w.elements fun e _ => toExpr? e
    return .app head args
  | _ => none
termination_by sizeOf v

/-- The expression that the object describes. -/
def toExpr? (v : Json) : Option Expr := v.toLocated? fun w _ => toNode? w
termination_by sizeOf v

/-- The bound name with its type that the object describes. -/
def toTypedBinder? (v : Json) : Option TypedBinder :=
  match v.kind? with
  | some .typedBinder => do
    let loc ← v.field "loc" fun w _ => w.toLocation?
    let name ← v.field "name" fun w _ => w.toText?
    let type ← v.field "type" fun w _ => toExpr? w
    return .mk loc name type
  | _ => none
termination_by sizeOf v

end

/-- The statement that the object describes. -/
def toStatement? (v : Json) : Option Statement :=
  match v.kind? with
  | some (.command .claim) => do
    let name ← v.field "name" fun w _ => w.toLocated? fun w _ => w.toText?
    let type ← v.field "type" fun w _ => w.toExpr?
    return .claim name type
  | some (.command .define) => do
    let name ← v.field "name" fun w _ => w.toLocated? fun w _ => w.toText?
    let value ← v.field "value" fun w _ => w.toExpr?
    return .define name value
  | some (.command .checkSame) => do
    let type ← v.field "type" fun w _ => w.toExpr?
    let left ← v.field "left" fun w _ => w.toExpr?
    let right ← v.field "right" fun w _ => w.toExpr?
    return .checkSame type left right
  | some .expr => do return .expr (← v.field "expr" fun w _ => w.toExpr?)
  | _ => none

/-- The top-level forms that the array lists. -/
def toTopLevels? (v : Json) : Option (List TopLevel) :=
  v.elements fun t _ => t.toLocated? fun w _ => w.toStatement?

/-! ## Reading what was written -/

/-- The reader makes `a` of every value that is the same as `w`. -/
def Recovers {α : Type} (read : Json → Option α) (w : Json) (a : α) : Prop :=
  ∀ v, Same v w → read v = some a

section Parts

variable {α : Type} {read : Json → Option α} {v w : Json} {a : α}

theorem field_eq {k : String} (h : v.valueAt? k = some w) :
    (v.field k fun w _ => read w) = read w := by
  unfold field
  split
  · rename_i w' h'
    rw [Option.some.inj (h.symm.trans h')]
  · rename_i h'
    cases h.symm.trans h'

/-- A field is read from the value at its key. -/
theorem Recovers.field (hw : Recovers read w a) {fs : List (String × Json)}
    (h : Same v (.object fs)) (k : String) (hk : fs.lookup k = some w) :
    (v.field k fun w _ => read w) = some a := by
  obtain ⟨v', hv', hsame⟩ := h.exists_value hk
  rw [field_eq hv', hw v' hsame]

theorem elements_array (vs : List Json) :
    ((Json.array vs).elements fun w _ => read w) = vs.mapM read := by
  rw [elements, List.mapM_subtype (g := read) fun _ _ => rfl, List.unattach_attach]

/-- The elements of an array are read one by one. -/
theorem recovers_array {ws : List Json} {as : List α} (h : List.Forall₂ (Recovers read) ws as) :
    Recovers (fun v => v.elements fun w _ => read w) (.array ws) as := by
  intro v hv
  obtain ⟨vs, rfl, hvs⟩ := hv.exists_elements
  show (Json.array vs).elements (fun w _ => read w) = some as
  rw [elements_array]
  clear hv
  induction h generalizing vs with
  | nil =>
      cases hvs
      rfl
  | cons hfirst hrest ih =>
      cases hvs with
      | cons hsame hvs => simp [hfirst _ hsame, ih _ hvs]

theorem kind?_of_same (k : Kind) {fields : List (String × Json)}
    (h : Same v (ofKind k.name fields)) : v.kind? = some k := by
  obtain ⟨w, hw, hsame⟩ := h.exists_value (k := "kind") (w := .string k.name) (List.lookup_cons_self ..)
  rw [kind?, hw, hsame.eq_string]
  exact Kind.ofName?_name k

end Parts

theorem recovers_string (s : String) : Recovers toString? (.string s) s := by
  intro v h
  rw [h.eq_string, toString?]

theorem recovers_text (t : Text) : Recovers toText? (ofText t) t := by
  intro v h
  rw [toText?, recovers_string _ v h, Option.map_some, String.toList_ofList]

theorem recovers_number (n : Int) : Recovers toNumber? (.number n) n := by
  intro v h
  rw [h.eq_number, toNumber?]

theorem recovers_position (p : Position) : Recovers toPosition? (ofPosition p) p := by
  intro v h
  rw [toPosition?, kind?_of_same .position h]
  simp only [(recovers_number p.line).field h "line" rfl,
    (recovers_number p.column).field h "column" rfl]
  rfl

theorem recovers_location (l : Location) : Recovers toLocation? (ofLocation l) l := by
  intro v h
  rw [toLocation?, kind?_of_same .location h]
  simp only [(recovers_string l.source).field h "source" rfl,
    (recovers_position l.start).field h "start" rfl,
    (recovers_position l.finish).field h "end" rfl]
  rfl

/-- A located value is read with the reader of the value. -/
theorem recovers_located {α : Type} {read : Json → Option α} {w : Json} {a : α}
    (hw : Recovers read w a) (l : Location) :
    Recovers (fun v => v.toLocated? fun w _ => read w) (atLocation l w) ⟨l, a⟩ := by
  intro v h
  show v.toLocated? (fun w _ => read w) = some ⟨l, a⟩
  rw [toLocated?, kind?_of_same .located h]
  simp only [(recovers_location l).field h "loc" rfl, hw.field h "value" rfl]
  rfl

theorem recovers_binder (b : Binder) : Recovers toBinder? (ofBinder b) b := by
  intro v h
  rw [toBinder?, kind?_of_same .binder h]
  simp only [(recovers_location b.loc).field h "loc" rfl, (recovers_text b.name).field h "name" rfl]
  rfl

theorem recovers_binders (bs : List Binder) :
    List.Forall₂ (Recovers toBinder?) (bs.map ofBinder) bs :=
  List.forall₂_map_left_iff.mpr (List.forall₂_same.mpr fun b _ => recovers_binder b)

/-! ## Arguments -/

/-- An entry with another key before the fields does not hide them. -/
theorem lookup_cons_zip {ks : List String} {vs : List Json} {k k' : String} {v w : Json}
    (hk' : k' ∉ ks) (h : (ks.zip vs).lookup k = some w) :
    ((k', v) :: ks.zip vs).lookup k = some w := by
  obtain ⟨before, after, hzip, -⟩ := List.lookup_eq_some_iff.mp h
  have hk : k ∈ ks := (List.of_mem_zip (hzip ▸ List.mem_append_cons_self)).1
  have hne : k ≠ k' := fun heq => hk' (heq ▸ hk)
  rw [List.lookup_cons, beq_false_of_ne hne]
  exact h

/-- Fields of different names are read each from its own value. -/
theorem toArguments?_eq {ks : List String} (hks : ks.Nodup) {args : Arguments ks.length}
    {read : String → Option Expr}
    (hargs : List.Forall₂ (Recovers toExpr?) (ofArguments args) args.toList)
    (hread : ∀ k w e, (ks.zip (ofArguments args)).lookup k = some w → Recovers toExpr? w e →
      read k = some e) : toArguments? read ks = some args := by
  induction ks with
  | nil =>
      cases args
      rfl
  | cons k ks ih =>
      cases args with
      | cons first rest =>
          obtain ⟨hk, hks⟩ := List.nodup_cons.mp hks
          cases hargs with
          | cons hfirst hrest =>
              have hhead := hread k _ _ (List.lookup_cons_self ..) hfirst
              have htail := ih hks hrest fun k' w e hlookup hw =>
                hread k' w e (lookup_cons_zip hk hlookup) hw
              rw [toArguments?, hhead, htail]
              rfl

/-! ## Trees -/

mutual

theorem recovers_node : (n : Node) → Recovers toNode? (ofNode n) n
  | .var name => by
      intro v h
      rw [toNode?, kind?_of_same .var h]
      simp only [(recovers_text name).field h "name" rfl]
      rfl
  | .tick name => by
      intro v h
      rw [toNode?, kind?_of_same .tick h]
      simp only [(recovers_text name).field h "name" rfl]
      rfl
  | .natLit value => by
      intro v h
      have hvalue : Recovers (fun w => w.toNumber?.bind Int.toNat?) (.number value) value :=
        fun v h => by
          show v.toNumber?.bind Int.toNat? = some value
          rw [recovers_number _ v h]
          rfl
      rw [toNode?, kind?_of_same .natLit h]
      simp only [hvalue.field h "value" rfl]
      rfl
  | .constant c => by
      intro v h
      rw [toNode?, kind?_of_same (.constant c) h]
  | .form f args => by
      intro v h
      obtain ⟨hkind, hfields⟩ := List.nodup_cons.mp f.nodup_fields
      have hread := toArguments?_eq hfields (recovers_arguments args) fun k w e hlookup hw =>
        hw.field h k (lookup_cons_zip hkind hlookup)
      rw [toNode?, kind?_of_same (.head (.form f)) h]
      simp only [hread]
      rfl
  | .lambda binders body => by
      intro v h
      rw [toNode?, kind?_of_same (.head .lambda) h]
      simp only [(recovers_array (recovers_binders binders)).field h "binders" rfl,
        (recovers_expr body).field h "body" rfl]
      rfl
  | .quantified q binders body => by
      intro v h
      rw [toNode?, kind?_of_same (.head (.quantifier q)) h]
      simp only [(recovers_array (recovers_typedBinders binders)).field h "binders" rfl,
        (recovers_expr body).field h "body" rfl]
      rfl
  | .arrow arg rest => by
      intro v h
      rw [toNode?, kind?_of_same (.head .arrow) h]
      simp only [(recovers_expr arg).field h "arg" rfl,
        (recovers_array (recovers_exprs rest)).field h "rest" rfl]
      rfl
  | .app head args => by
      intro v h
      rw [toNode?, kind?_of_same .app h]
      simp only [(recovers_expr head).field h "fun" rfl,
        (recovers_array (recovers_exprs args)).field h "args" rfl]
      rfl

theorem recovers_expr : (e : Located Node) → Recovers toExpr? (ofExpr e) e
  | ⟨loc, node⟩ => by
      intro v h
      rw [toExpr?]
      exact recovers_located (recovers_node node) loc v h

theorem recovers_exprs : (es : List (Located Node)) →
    List.Forall₂ (Recovers toExpr?) (ofExprs es) es
  | [] => .nil
  | e :: es => .cons (recovers_expr e) (recovers_exprs es)

theorem recovers_arguments {n : Nat} : (args : Arguments n) →
    List.Forall₂ (Recovers toExpr?) (ofArguments args) args.toList
  | .nil => .nil
  | .cons first rest => .cons (recovers_expr first) (recovers_arguments rest)

theorem recovers_typedBinder : (b : TypedBinder) → Recovers toTypedBinder? (ofTypedBinder b) b
  | .mk loc name type => by
      intro v h
      rw [toTypedBinder?, kind?_of_same .typedBinder h]
      simp only [(recovers_location loc).field h "loc" rfl, (recovers_text name).field h "name" rfl,
        (recovers_expr type).field h "type" rfl]
      rfl

theorem recovers_typedBinders : (bs : List TypedBinder) →
    List.Forall₂ (Recovers toTypedBinder?) (ofTypedBinders bs) bs
  | [] => .nil
  | b :: bs => .cons (recovers_typedBinder b) (recovers_typedBinders bs)

end

/-! ## Forms -/

theorem recovers_statement (s : Statement) : Recovers toStatement? (ofStatement s) s := by
  intro v h
  cases s with
  | claim name type =>
      rw [toStatement?, kind?_of_same (.command .claim) h]
      simp only [(recovers_located (recovers_text name.value) name.loc).field h "name" rfl,
        (recovers_expr type).field h "type" rfl]
      rfl
  | define name value =>
      rw [toStatement?, kind?_of_same (.command .define) h]
      simp only [(recovers_located (recovers_text name.value) name.loc).field h "name" rfl,
        (recovers_expr value).field h "value" rfl]
      rfl
  | checkSame type left right =>
      rw [toStatement?, kind?_of_same (.command .checkSame) h]
      simp only [(recovers_expr type).field h "type" rfl, (recovers_expr left).field h "left" rfl,
        (recovers_expr right).field h "right" rfl]
      rfl
  | expr e =>
      rw [toStatement?, kind?_of_same .expr h]
      simp only [(recovers_expr e).field h "expr" rfl]
      rfl

theorem recovers_topLevels (ts : List TopLevel) : Recovers toTopLevels? (ofTopLevels ts) ts := by
  refine recovers_array (List.forall₂_map_left_iff.mpr (List.forall₂_same.mpr fun t _ => ?_))
  exact recovers_located (recovers_statement t.value) t.loc

/-- Forms with the same JSON, up to the order of entries, are the same forms: they are read back from
any value that is the same, and so from the one that is printed. -/
theorem ofTopLevels_lossless :
    (∀ ts us : List TopLevel, Same (ofTopLevels ts) (ofTopLevels us) → ts = us) ∧
    (∀ (ts : List TopLevel) (v : Json), Same v (ofTopLevels ts) → v.toTopLevels? = some ts) ∧
    ∀ ts : List TopLevel, (ofTopLevels ts).sorted.toTopLevels? = some ts := by
  refine ⟨fun ts us h => ?_, recovers_topLevels, fun ts => recovers_topLevels ts _ (sorted_same _)⟩
  have hts := recovers_topLevels ts _ (Same.refl _)
  have hus := recovers_topLevels us _ h
  exact Option.some.inj (hts.symm.trans hus)

/-- A form of `(claim f (-> Nat Nat))`. -/
def claimedArrow : TopLevel :=
  let place (i j : Int) : Location := ⟨"f.pie", ⟨1, i⟩, ⟨1, j⟩⟩
  ⟨place 1 23, .claim ⟨place 8 9, "f".toList⟩
    ⟨place 10 22, .arrow ⟨place 14 17, .constant .nat⟩ [⟨place 18 21, .constant .nat⟩]⟩⟩

/-- The form is read back from its JSON, with the entries as they were written and in the order of
their keys; that of the same form one column further is another value. -/
theorem ofTopLevels_lossless_claimedArrow :
    Same (ofTopLevels [claimedArrow]).sorted (ofTopLevels [claimedArrow]) ∧
      (ofTopLevels [claimedArrow]).toTopLevels? = some [claimedArrow] ∧
      (ofTopLevels [claimedArrow]).sorted.toTopLevels? = some [claimedArrow] ∧
      ¬ Same (ofTopLevels [claimedArrow])
        (ofTopLevels [{ claimedArrow with loc := ⟨"f.pie", ⟨1, 2⟩, ⟨1, 24⟩⟩ }]) := by
  obtain ⟨hinjective, hread, hprinted⟩ := ofTopLevels_lossless
  refine ⟨sorted_same _, hread _ _ (Same.refl _), hprinted _, fun h => ?_⟩
  have hforms := (List.cons.inj (hinjective _ _ h)).1
  have hloc := congrArg Located.loc hforms
  exact absurd hloc (by decide)

end Json

end PieSyntax
