import Mathlib.Data.List.Nodup
import LoopSafety.Kernel.Format

/-! What is written in the kernel format reads back as what it was.

Numbers and names are read back one by one. From there the statement goes up through the shapes of
the format: lists, optional members, records, tagged alternatives. A construct is its tag and its
members, and reading takes the tag off first. -/
namespace LoopSafety

namespace Json

@[simp] lemma int64?_toInt (n : Int64) : int64? (.int n.toInt) = some n := by
  rw [int64?, if_pos ⟨n.minValue_le_toInt, n.toInt_le⟩, Int64.ofInt_toInt]

@[simp] lemma int32?_toInt (n : Int32) : int32? (.int n.toInt) = some n := by
  rw [int32?, if_pos ⟨n.minValue_le_toInt, n.toInt_le⟩, Int32.ofInt_toInt]

@[simp] lemma uint32?_toNat (n : UInt32) : uint32? (.int n.toNat) = some n := by
  simp [uint32?, n.toNat_lt_size]

@[simp] lemma string?_str (s : String) : string? (.str s) = some s := rfl

variable {α : Type} {encode : α → Json} {item? : Json → Option α}

/-- A list is read back if each of its elements is. -/
lemma list?_map {items : List α} (h : ∀ a ∈ items, item? (encode a) = some a) :
    list? item? (.arr (items.map encode)) = some items := by
  rw [list?, List.mapM_map]
  induction items with
  | nil => rfl
  | cons a items ih =>
    obtain ⟨ha, hitems⟩ := List.forall_mem_cons.mp h
    simp [List.mapM_cons, ha, ih hitems]

/-- A list is not read if one of its elements is not. -/
lemma list?_map_eq_none {items : List α} {a : α} (ha : a ∈ items) (h : item? (encode a) = none) :
    list? item? (.arr (items.map encode)) = none := by
  rw [list?, List.mapM_map]
  induction items with
  | nil => cases ha
  | cons b items ih =>
    rw [List.mapM_cons]
    obtain rfl | ha := List.mem_cons.mp ha
    · simp [h]
    · simp [ih ha]

/-- A member that may be absent is read back if its value is, and the value is not written as null. -/
lemma maybe_elim (h : ∀ a, item? (encode a) = some a) (hnull : ∀ a, encode a ≠ .null)
    (value : Option α) : maybe item? (some (value.elim .null encode)) = some value := by
  cases value with
  | none => rfl
  | some a =>
    rw [maybe, Option.elim_some, nullable?, h, Option.map_some]
    exact hnull a

/-- The value is readable and has at most one container open. -/
def Shallow (j : Json) : Prop := j.nesting ≤ 1 ∧ j.isReadable = true

@[simp] lemma shallow_int (n : Int) : (int n).Shallow := ⟨Nat.zero_le 1, rfl⟩

@[simp] lemma shallow_str (s : String) : (str s).Shallow := ⟨Nat.zero_le 1, rfl⟩

lemma shallow_ints (ns : List Int) : (arr (ns.map int)).Shallow := by
  induction ns with
  | nil => exact ⟨Nat.le_refl 1, rfl⟩
  | cons n ns ih =>
    simpa [Shallow, nesting, nestingItems, isReadable, readableItems] using ih

lemma nestingMembers_le_one {members : List (String × Json)} (h : ∀ m ∈ members, m.2.Shallow) :
    nestingMembers members ≤ 1 := by
  induction members with
  | nil => exact Nat.zero_le 1
  | cons m rest ih =>
    obtain ⟨hm, hrest⟩ := List.forall_mem_cons.mp h
    exact Nat.max_le.mpr ⟨hm.1, ih hrest⟩

lemma readableMembers_of_shallow {members : List (String × Json)}
    (h : ∀ m ∈ members, m.2.Shallow) : readableMembers members = true := by
  induction members with
  | nil => rfl
  | cons m rest ih =>
    obtain ⟨hm, hrest⟩ := List.forall_mem_cons.mp h
    rw [readableMembers, hm.2, ih hrest, Bool.and_self]

/-- The tag of an alternative is taken off when it stands before shallow members only. -/
lemma tagged?_obj {source : Source} {limit : Nat} {key tag : String} {names : List String}
    {members : List (String × Json)} (hlimit : 1 < limit) (htag : tag ∈ names)
    (h : ∀ m ∈ members, m.1 ≠ key ∧ m.2.Shallow) :
    tagged? source limit key names (.obj ((key, .str tag) :: members)) =
      some (tag, .obj members) := by
  have hnesting : (obj ((key, .str tag) :: members)).nesting ≤ limit := by
    have := nestingMembers_le_one fun m hm => (h m hm).2
    simp only [nesting, nestingMembers]
    omega
  have hreadable : (obj ((key, .str tag) :: members)).isReadable = true := by
    have := readableMembers_of_shallow fun m hm => (h m hm).2
    simp only [isReadable, readableMembers, this, Bool.and_self]
  have hothers : members.filter (·.1 == key) = [] :=
    List.filter_eq_nil_iff.mpr fun m hm => by simpa using (h m hm).1
  have hkept : members.filter (·.1 != key) = members :=
    List.filter_eq_self.mpr fun m hm => by simpa using (h m hm).1
  rw [tagged?, if_neg (by simp [hnesting, hreadable])]
  simp [hothers, hkept, tag?, htag]

end Json

namespace Value

def isDouble : Value → Bool
  | double _ => true
  | _ => false

/-- A double may be no finite number. -/
def isFinite : Value → Bool
  | double x => x.isFinite
  | _ => true

lemma isFinite_of_isDouble {v : Value} (h : v.isDouble = false) : v.isFinite = true := by
  cases v with
  | double x => cases h
  | _ => rfl

lemma ofJson?_toJson {v : Value} (h : v.isFinite = true) : ofJson? v.toJson = some v := by
  cases v with
  | int n => exact congrArg (Option.map int) (Json.int32?_toInt n)
  | long n => exact congrArg (Option.map long) (Json.int64?_toInt n)
  | double x =>
    have hx : x.isFinite = true := h
    rw [toJson, if_pos hx]
    rfl
  | bool b => rfl

/-- What is not finite is written as null, and null is no number. -/
lemma ofJson?_toJson_eq_none {v : Value} (h : v.isFinite = false) : ofJson? v.toJson = none := by
  cases v with
  | double x =>
    rw [toJson, if_neg (by simpa [isFinite] using h)]
    rfl
  | _ => cases h

@[simp] lemma shallow_toJson (v : Value) : v.toJson.Shallow := by
  cases v with
  | double x =>
    rw [toJson]
    split <;> exact ⟨Nat.le_refl 1, rfl⟩
  | _ => exact ⟨Nat.le_refl 1, rfl⟩

end Value

@[simp] lemma NodeId.ofJson?_toJson (id : NodeId) : ofJson? id.toJson = some id := by
  rw [ofJson?, toJson, NodeId.toNat, Json.uint32?_toNat, Option.map_some]

namespace LoopRange

@[simp] lemma maybe_handleJson (id : Option NodeId) :
    Json.maybe NodeId.ofJson? (some (handleJson id)) = some id := by
  have hid : handleJson id = id.elim .null NodeId.toJson := by cases id <;> rfl
  rw [hid, Json.maybe_elim NodeId.ofJson?_toJson fun id => by simp [NodeId.toJson]]

@[simp] lemma shallow_handleJson (id : Option NodeId) : (handleJson id).Shallow := by
  cases id <;> exact ⟨Nat.zero_le 1, rfl⟩

@[simp] lemma defaults?_arr (d : Span) :
    defaults? (.arr [.int d.start.toInt, .int d.stop.toInt, .int d.step.toInt]) = some d := by
  simp [defaults?]

lemma ofJson?_toJson (range : LoopRange) : ofJson? range.toJson = some range := by
  cases range with
  | simple s =>
    change (do
      return simple ⟨← Json.int64? (.int s.start.toInt), ← Json.int64? (.int s.stop.toInt),
        ← Json.int64? (.int s.step.toInt)⟩) = _
    simp
  | symbolic start stop step d =>
    have hdefaults := Json.shallow_ints [d.start.toInt, d.stop.toInt, d.step.toInt]
    rw [ofJson?, toJson, Json.tagged?_obj (by decide) (by decide) (by simpa using hdefaults)]
    change (do
      return symbolic (← Json.maybe NodeId.ofJson? (some (handleJson start)))
        (← Json.maybe NodeId.ofJson? (some (handleJson stop)))
        (← Json.maybe NodeId.ofJson? (some (handleJson step)))
        (← defaults? (.arr [.int d.start.toInt, .int d.stop.toInt, .int d.step.toInt]))) = _
    simp

end LoopRange

namespace Node

@[simp] lemma ids?_idsJson (ids : List NodeId) : ids? (idsJson ids) = some ids :=
  Json.list?_map fun id _ => NodeId.ofJson?_toJson id

@[simp] lemma type?_typeJson (ty : DataType) : type? (typeJson ty) = some ty := ty.ofName?_name

def isDouble {ρ : Type} : Node ρ → Bool
  | literal v => v.isDouble
  | _ => false

def tag {ρ : Type} : Node ρ → String
  | literal _ => "literal"
  | var .. => "var"
  | binary .. => "bin_op"
  | unary .. => "unary_op"
  | access .. => "array_access"
  | builtin .. => "builtin"
  | math .. => "math"
  | cond .. => "if"
  | forLoop .. => "for"
  | whileLoop .. => "while"
  | block _ => "block"
  | assign .. => "assign"
  | call .. => "call"
  | ret _ => "return"
  | brk => "break"

/-- What is written after the tag. -/
def members : Node NodeId → List (String × Json)
  | literal value => [("value", value.toJson)]
  | var name ty definition =>
    [("name", .str name), ("ty", typeJson ty), ("def", LoopRange.handleJson definition)]
  | binary op left right ty =>
    [("op", .str op.name), ("left", left.toJson), ("right", right.toJson), ("ty", typeJson ty)]
  | unary op operand ty =>
    [("op", .str op.name), ("operand", operand.toJson), ("ty", typeJson ty)]
  | access array indices => [("array", .int array.toNat), ("indices", idsJson indices)]
  | builtin kind args ty => [("kind", .str kind.name), ("args", idsJson args), ("ty", typeJson ty)]
  | math fn args ty => [("func", .str fn.name), ("args", idsJson args), ("ty", typeJson ty)]
  | cond condition thenPart elsePart ty =>
    [("cond", condition.toJson), ("then", thenPart.toJson),
      ("orelse", LoopRange.handleJson elsePart), ("ty", typeJson ty)]
  | forLoop loop body => [("info", .int loop.toNat), ("body", body.toJson)]
  | whileLoop condition body => [("cond", condition.toJson), ("body", body.toJson)]
  | block statements => [("stmts", idsJson statements)]
  | assign target value => [("target", target.toJson), ("value", value.toJson)]
  | call function args => [("function", .int function.toNat), ("args", idsJson args)]
  | ret value => [("value", value.toJson)]
  | brk => []

lemma toJson_eq (node : Node NodeId) :
    node.toJson = .obj (("node", .str node.tag) :: node.members) := by
  cases node <;> rfl

lemma tag_mem_tags {ρ : Type} (node : Node ρ) : node.tag ∈ tags := by
  cases node <;> simp [tag, tags]

lemma shallow_idsJson (ids : List NodeId) : (idsJson ids).Shallow := by
  have h := Json.shallow_ints (ids.map fun id => (id.toNat : Int))
  rwa [List.map_map] at h

lemma shallow_members (node : Node NodeId) : ∀ m ∈ node.members, m.1 ≠ "node" ∧ m.2.Shallow := by
  cases node <;> simp [members, shallow_idsJson, NodeId.toJson, typeJson]

lemma ofRecord?_members {node : Node NodeId} (h : node.isDouble = false) :
    ofRecord? node.tag (.obj node.members) = some node := by
  -- Tag and member names are fixed, so finding each member is a computation; what is left to read
  -- are the values of the members.
  cases node with
  | literal value =>
    change (do return literal (← Value.ofJson? value.toJson)) = _
    rw [Value.ofJson?_toJson (Value.isFinite_of_isDouble h)]
    rfl
  | var name ty definition =>
    change (do
      return var name (← type? (typeJson ty))
        (← Json.maybe NodeId.ofJson? (some (LoopRange.handleJson definition)))) = _
    simp
  | binary op left right ty =>
    change (do
      return binary (← BinaryOp.ofName? op.name) (← NodeId.ofJson? left.toJson)
        (← NodeId.ofJson? right.toJson) (← type? (typeJson ty))) = _
    simp
  | unary op operand ty =>
    change (do
      return unary (← UnaryOp.ofName? op.name) (← NodeId.ofJson? operand.toJson)
        (← type? (typeJson ty))) = _
    simp
  | access array indices =>
    change (do
      return access ⟨← Json.uint32? (.int array.index.toNat)⟩ (← ids? (idsJson indices))) = _
    simp
  | builtin kind args ty =>
    change (do
      return builtin (← Builtin.ofName? kind.name) (← ids? (idsJson args))
        (← type? (typeJson ty))) = _
    simp
  | math fn args ty =>
    change (do
      return math (← MathFn.ofName? fn.name) (← ids? (idsJson args)) (← type? (typeJson ty))) = _
    simp
  | cond condition thenPart elsePart ty =>
    change (do
      return cond (← NodeId.ofJson? condition.toJson) (← NodeId.ofJson? thenPart.toJson)
        (← Json.maybe NodeId.ofJson? (some (LoopRange.handleJson elsePart)))
        (← type? (typeJson ty))) = _
    simp
  | forLoop loop body =>
    change (do
      return forLoop ⟨← Json.uint32? (.int loop.index.toNat)⟩ (← NodeId.ofJson? body.toJson)) = _
    simp
  | whileLoop condition body =>
    change (do
      return whileLoop (← NodeId.ofJson? condition.toJson) (← NodeId.ofJson? body.toJson)) = _
    simp
  | block statements =>
    change (do return block (← ids? (idsJson statements))) = _
    simp
  | assign target value =>
    change (do return assign (← NodeId.ofJson? target.toJson) (← NodeId.ofJson? value.toJson)) = _
    simp
  | call function args =>
    change (do
      return call ⟨← Json.uint32? (.int function.index.toNat)⟩ (← ids? (idsJson args))) = _
    simp
  | ret value =>
    change (do return ret (← NodeId.ofJson? value.toJson)) = _
    simp
  | brk => rfl

lemma ofJson?_toJson {node : Node NodeId} (h : node.isDouble = false) :
    ofJson? node.toJson = some node := by
  rw [ofJson?, toJson_eq, Json.tagged?_obj (by decide) node.tag_mem_tags node.shallow_members]
  exact ofRecord?_members h

end Node

lemma LoopInfo.ofJson?_toJson (info : LoopInfo) : ofJson? info.toJson = some info := by
  change (do
    return {
      induction := info.induction
      ty := ← DataType.ofName? info.ty.name
      range := ← LoopRange.ofJson? info.range.toJson : LoopInfo }) = _
  simp [LoopRange.ofJson?_toJson]

lemma Param.ofJson?_toJson (p : Param) : ofJson? p.toJson = some p := by
  change (do
    let ty ← DataType.ofName? p.ty.name
    return (⟨p.name, ty⟩ : Param)) = _
  simp

lemma FunctionDef.ofJson?_toJson (f : FunctionDef) : ofJson? f.toJson = some f := by
  change (do
    return {
      name := f.name
      params := ← Json.list? Param.ofJson? (.arr (f.params.map Param.toJson))
      ret := ← NodeId.ofJson? f.ret.toJson
      retTy := ← DataType.ofName? f.retTy.name : FunctionDef }) = _
  simp [Json.list?_map fun p _ => Param.ofJson?_toJson p]

namespace ArrayDecl

@[simp] lemma words?_wordsJson (words : List Int64) :
    Json.list? Json.int64? (wordsJson words) = some words :=
  Json.list?_map fun n _ => Json.int64?_toInt n

lemma ofJson?_toJson (decl : ArrayDecl) : ofJson? decl.toJson = some decl := by
  change (do
    return {
      name := decl.name
      ty := ← DataType.ofName? decl.ty.name
      dims := ← Json.list? Json.int64? (wordsJson decl.dims)
      values := ← Json.maybe (Json.list? Json.int64?) (some (decl.values.elim .null wordsJson))
      readOnly := decl.readOnly
      aliasOf := ← Json.maybe Json.string? (some (decl.aliasOf.elim .null .str)) : ArrayDecl }) = _
  rw [Json.maybe_elim words?_wordsJson fun words => by simp [wordsJson],
    Json.maybe_elim Json.string?_str fun s => by simp]
  simp

end ArrayDecl

namespace ConstantDecl

lemma ofJson?_toJson_eq (decl : ConstantDecl) :
    ofJson? decl.toJson = (Value.ofJson? decl.value.toJson).map fun value => { decl with value } := by
  change (do
    return {
      name := decl.name
      value := ← Value.ofJson? decl.value.toJson
      ty := ← DataType.ofName? decl.ty.name : ConstantDecl }) = _
  cases Value.ofJson? decl.value.toJson <;> simp

lemma ofJson?_toJson {decl : ConstantDecl} (h : decl.value.isFinite = true) :
    ofJson? decl.toJson = some decl := by
  rw [ofJson?_toJson_eq, Value.ofJson?_toJson h, Option.map_some]

lemma ofJson?_toJson_eq_none {decl : ConstantDecl} (h : decl.value.isFinite = false) :
    ofJson? decl.toJson = none := by
  rw [ofJson?_toJson_eq, Value.ofJson?_toJson_eq_none h, Option.map_none]

end ConstantDecl

namespace Table

variable {κ α : Type} [DecidableEq κ]

lemma put_of_not_mem {entries : List (κ × α)} {key : κ} (h : key ∉ entries.map (·.1)) (value : α) :
    put entries key value = entries ++ [(key, value)] := by
  induction entries with
  | nil => rfl
  | cons b rest ih =>
    rw [List.map_cons, List.mem_cons, not_or] at h
    rw [put, if_neg (Ne.symm h.1), ih h.2, List.cons_append]

/-- New keys are bound in the order in which they come. -/
lemma entries_insertAll {bindings : List (κ × α)} {t : Table κ α}
    (h : (t.keys ++ bindings.map (·.1)).Nodup) :
    (t.insertAll bindings).entries = t.entries ++ bindings := by
  induction bindings generalizing t with
  | nil => exact (List.append_nil _).symm
  | cons b rest ih =>
    have hnew : b.1 ∉ t.keys := fun hb =>
      (List.nodup_append.mp h).2.2 _ hb _ List.mem_cons_self rfl
    have hput : (t.insert b.1 b.2).entries = t.entries ++ [b] := put_of_not_mem hnew b.2
    have hkeys : (t.insert b.1 b.2).keys = t.keys ++ [b.1] := by
      rw [keys, hput, List.map_append, keys, List.map_singleton]
    calc ((t.insert b.1 b.2).insertAll rest).entries
        = (t.insert b.1 b.2).entries ++ rest := ih (by simpa [hkeys] using h)
      _ = t.entries ++ b :: rest := by rw [hput, List.append_assoc, List.singleton_append]

lemma ofList_entries {t : Table κ α} (h : t.keys.Nodup) : ofList t.entries = t :=
  congrArg Table.mk (entries_insertAll h)

end Table

namespace KernelFile

lemma constants?_constantsJson (constants : Constants) :
    constants? (constantsJson constants) = some (.ofList constants.entries) := by
  have hread : (constantsJson constants).dictionary? Json.int64? = some constants.entries := by
    rw [constantsJson, Json.dictionary?, List.mapM_map]
    induction constants.entries with
    | nil => rfl
    | cons b rest ih => simp [List.mapM_cons, ih]
  rw [constants?, hread, Option.map_some]

/-- The instantiations of a file are always read, with the last value of a repeated name. -/
lemma instantiations?_arr (instantiations : List Constants) :
    Json.list? constants? (.arr (instantiations.map constantsJson)) =
      some (instantiations.map fun constants => .ofList constants.entries) := by
  rw [Json.list?, List.mapM_map]
  induction instantiations with
  | nil => rfl
  | cons constants rest ih => simp [List.mapM_cons, constants?_constantsJson, ih]

lemma ofJson?_toJson {file : KernelFile} (h : ∀ node ∈ file.nodes, node.isDouble = false) :
    ofJson? file.toJson = do
      let constants ← Json.list? ConstantDecl.ofJson?
        (.arr (file.constants.map ConstantDecl.toJson))
      return { file with
        constants
        instantiations := file.instantiations.map fun constants => .ofList constants.entries } := by
  change (do
    return {
      arrays := ← Json.list? ArrayDecl.ofJson? (.arr (file.arrays.map ArrayDecl.toJson))
      nodes := ← Json.list? Node.ofJson? (.arr (file.nodes.map Node.toJson))
      loops := ← Json.list? LoopInfo.ofJson? (.arr (file.loops.map LoopInfo.toJson))
      functions := ← Json.list? FunctionDef.ofJson? (.arr (file.functions.map FunctionDef.toJson))
      regions := ← Node.ids? (Node.idsJson file.regions)
      constants := ← Json.list? ConstantDecl.ofJson?
        (.arr (file.constants.map ConstantDecl.toJson))
      instantiations := ← Json.list? constants? (.arr (file.instantiations.map constantsJson))
      : KernelFile }) = _
  rw [Json.list?_map fun decl _ => decl.ofJson?_toJson,
    Json.list?_map fun node hnode => Node.ofJson?_toJson (h node hnode),
    Json.list?_map fun info _ => info.ofJson?_toJson,
    Json.list?_map fun f _ => f.ofJson?_toJson, Node.ids?_idsJson, instantiations?_arr]
  rfl

/-- A file with finite constants is read, and differs at most in repeated names. -/
lemma ofJson?_toJson_of_finite {file : KernelFile} (h : ∀ node ∈ file.nodes, node.isDouble = false)
    (hconstants : ∀ decl ∈ file.constants, decl.value.isFinite) :
    ofJson? file.toJson = some { file with
      instantiations := file.instantiations.map fun constants => .ofList constants.entries } := by
  rw [ofJson?_toJson h,
    Json.list?_map fun decl hdecl => ConstantDecl.ofJson?_toJson (hconstants decl hdecl)]
  rfl

/-- What is written is read back: every node but a double literal, every loop, and the lists of
them in a kernel file. A file is read unless it declares a double constant that is not finite, and the
whole of it is read back if moreover each instantiation binds a name once. -/
theorem written_descriptors_read_back :
    (∀ node : Node NodeId, node.isDouble = false → Node.ofJson? node.toJson = some node) ∧
    (∀ info : LoopInfo, LoopInfo.ofJson? info.toJson = some info) ∧
    ∀ file : KernelFile, (∀ node ∈ file.nodes, node.isDouble = false) →
      (∀ read, ofJson? file.toJson = some read →
        read.nodes = file.nodes ∧ read.loops = file.loops) ∧
      ((ofJson? file.toJson).isSome ↔ ∀ decl ∈ file.constants, decl.value.isFinite) ∧
      ((∀ decl ∈ file.constants, decl.value.isFinite) →
        (∀ constants ∈ file.instantiations, constants.keys.Nodup) →
        ofJson? file.toJson = some file) := by
  refine ⟨fun node => Node.ofJson?_toJson, LoopInfo.ofJson?_toJson, fun file hnodes =>
    ⟨?_, ⟨?_, ?_⟩, ?_⟩⟩
  · intro read hread
    rw [ofJson?_toJson hnodes] at hread
    obtain ⟨constants, -, hread⟩ := Option.bind_eq_some_iff.mp hread
    cases hread
    exact ⟨rfl, rfl⟩
  · intro hread decl hdecl
    by_contra hfinite
    have hnone := Json.list?_map_eq_none hdecl
      (ConstantDecl.ofJson?_toJson_eq_none (Bool.eq_false_iff.mpr hfinite))
    rw [ofJson?_toJson hnodes, hnone] at hread
    cases hread
  · intro hconstants
    rw [ofJson?_toJson_of_finite hnodes hconstants]
    rfl
  · intro hconstants hkeys
    have hsame : file.instantiations.map (fun constants => .ofList constants.entries) =
        file.instantiations :=
      (List.map_congr_left fun constants hmem => Table.ofList_entries (hkeys constants hmem)).trans
        (List.map_id _)
    rw [ofJson?_toJson_of_finite hnodes hconstants, hsame]

end KernelFile

namespace Sparse

/-- A loop from an expression up to a default, over a conditional without another branch. -/
def file : KernelFile where
  arrays := [⟨"a", .intArray, [8], none, false, none⟩]
  nodes := [.literal (.long Int64.minValue), .var "n" .long none, .var "i" .int (some ⟨0⟩),
    .builtin .max [⟨0⟩, ⟨1⟩] .int, .access ⟨0⟩ [⟨2⟩], .cond ⟨1⟩ ⟨4⟩ none .int,
    .block [], .forLoop ⟨0⟩ ⟨5⟩, .brk]
  loops := [⟨"i", .int, .symbolic (some ⟨1⟩) none none ⟨0, Int64.maxValue, -1⟩⟩]
  functions := [⟨"f", [⟨"x", .int⟩], ⟨2⟩, .int⟩]
  regions := [⟨7⟩]
  constants := [⟨"n", .int 4, .long⟩, ⟨"half", .double 0.5, .double⟩]
  instantiations := [⟨[("n", 5), ("m", -5)]⟩]

theorem absent_parts_read_back :
    (∀ node ∈ file.nodes, node.isDouble = false) ∧ KernelFile.ofJson? file.toJson = some file :=
  have hnodes : ∀ node ∈ file.nodes, node.isDouble = false := by decide
  ⟨hnodes, (KernelFile.written_descriptors_read_back.2.2 file hnodes).2.2 (by decide) (by decide)⟩

end Sparse

end LoopSafety
