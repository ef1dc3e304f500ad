import CodeDb.Language.Evaluator
import CodeDb.Language.Patterns
import CodeDb.Language.StoredTypes

/-!
# Values of enums

When a cell holds a value of a type, and when the evaluator finds that an arm over an enum
matches it: exactly when the pattern of the arm does.

## Main definitions

* `HasType` — a cell holds a value of a type
* `RawPattern.Matches` — a pattern matches what a cell holds
* `ArmMatches` — what is stored of an arm does

## Main results

* `matchTypedPattern_typed` — the evaluator matches what a pattern says
* `armMatches_iff` — so does what is stored of an arm
-/

namespace CodeDb

open Logged

/-! ### Values of a type -/

section Values

variable {P : Primitives} {context : EvalContext} {memory : Memory} {value : Value} {type : Hash}
  {cell : ValueCell}

/-- Memory with more cells. -/
def Later (memory memory' : Memory) : Prop := ∃ more, memory' = memory ++ more

theorem persists_ofExcept {α : Type} (x : Except Error α) : Persists Later (Mem.ofExcept x) := by
  cases x with
  | error e => exact .stop _
  | ok a => exact .pure a

theorem ofExcept_result {α : Type} {x : Except Error α} {a : α} :
    (Mem.ofExcept x memory).1 = .ok a ↔ x = .ok a := by
  cases x <;> simp [Mem.ofExcept, Mem.fail, stop, Pure.pure]

theorem borrow_result {cell : ValueCell} :
    (borrow cell memory).1 = .ok value ↔ memory[cell]? = some value := by
  cases found : memory[cell]? with
  | none => simp [borrow, Bind.bind, andThen, Logged.read, found, Mem.ofOption, Mem.fail, stop]
  | some v => simp [borrow, Bind.bind, andThen, Logged.read, found, Mem.ofOption, Pure.pure]

theorem persists_borrow (cell : ValueCell) : Persists Later (borrow cell) := by
  intro memory
  constructor
  · cases found : memory[cell]? with
    | none => simp [borrow, Bind.bind, andThen, Logged.read, found, Mem.ofOption, Mem.fail, stop]
    | some v => simp [borrow, Bind.bind, andThen, Logged.read, found, Mem.ofOption, Pure.pure]
  · rintro memory' value ⟨more, rfl⟩ result
    rw [borrow_result] at result ⊢
    obtain ⟨bound, rfl⟩ := Array.getElem?_eq_some_iff.mp result
    rw [Array.getElem?_append_left bound, Array.getElem?_eq_getElem bound]

/-- A value keeps its type when there are more cells. -/
theorem persists_valueHasType (depth : Nat) (value : Value) (type : Hash) :
    Persists Later (valueHasType.go P context depth value type) := by
  induction depth generalizing value type with
  | zero => exact .stop _
  | succ depth ih =>
    -- the kinds differ only in which cells they ask about: one, or all
    have cellHas (type : Hash) (cell : ValueCell) : Persists Later (do
        valueHasType.go P context depth (← borrow cell) type) :=
      (persists_borrow cell).bind fun _ => ih _ _
    have all (type : Hash) (cells : List ValueCell) : Persists Later
        (Logged.foldl (fun sofar cell => if sofar then (do
          valueHasType.go P context depth (← borrow cell) type) else return false) true cells) := by
      refine .foldl fun sofar cell _ => ?_
      cases sofar with
      | false => exact .pure false
      | true => exact cellHas type cell
    rw [valueHasType.go]
    refine (persists_ofExcept _).bind fun spec => ?_
    dsimp only
    split
    · exact .pure _
    · exact .pure _
    · exact .pure _
    · exact .pure _
    · exact cellHas _ _
    · exact cellHas _ _
    · split_ifs
      · exact cellHas _ _
      · exact .pure _
    · exact cellHas _ _
    · exact all _ _
    · exact .pure _
    · split_ifs
      · exact all _ _
      · exact .pure _
    · split_ifs
      · exact all _ _
      · exact .pure _
    · split_ifs
      · refine .foldl fun sofar field _ => ?_
        split
        · split_ifs
          · exact cellHas _ _
          · exact .pure _
        · exact .pure _
      · exact .pure _
    · split
      · exact cellHas _ _
      · exact .pure _
    · exact .pure _

variable (P context memory) in
/-- A cell holds a value of a type. -/
def HasType (cell : ValueCell) (type : Hash) : Prop :=
  ∃ value depth, memory[cell]? = some value ∧
    (valueHasType.go P context depth value type memory).1 = .ok true

theorem cellHasType_result {depth : Nat} {inner : ValueCell} {type : Hash} :
    ((do valueHasType.go P context depth (← borrow inner) type : Mem Bool) memory).1 = .ok true ↔
      ∃ value, memory[inner]? = some value ∧
        (valueHasType.go P context depth value type memory).1 = .ok true := by
  rw [(persists_borrow inner).bind_result]
  simp only [borrow_result]

/-- A value of an enum is a variant, with a payload one level down. -/
theorem valueHasType_enum {depth : Nat} {variants : List TypeFieldSpec}
    (found : typeSpecInRoot P context.objects context.root type = .ok (.enum variants)) :
    (valueHasType.go P context (depth + 1) value type memory).1 = .ok true ↔
      ∃ variant inner entry payload, value = .enum variant inner ∧
        variants.find? (·.name == variant) = some entry ∧ memory[inner]? = some payload ∧
        (valueHasType.go P context depth payload entry.typeHash memory).1 = .ok true := by
  rw [valueHasType.go, (persists_ofExcept _).bind_result]
  constructor
  · rintro ⟨spec, same, result⟩
    obtain rfl := Except.ok.inj ((ofExcept_result.mp same).symm.trans found)
    cases value with
    | enum variant inner =>
      dsimp only at result
      cases listed : variants.find? (·.name == variant) with
      | none =>
        rw [listed] at result
        cases result
      | some entry =>
        rw [listed] at result
        obtain ⟨payload, held, typed⟩ := cellHasType_result.mp result
        exact ⟨variant, inner, entry, payload, rfl, listed, held, typed⟩
    | _ => cases result
  · rintro ⟨variant, inner, entry, payload, rfl, listed, held, typed⟩
    refine ⟨_, ofExcept_result.mpr found, ?_⟩
    dsimp only
    rw [listed]
    exact cellHasType_result.mpr ⟨payload, held, typed⟩

/-- What has the type of a box is a box, over an element one level down. -/
theorem element_of_valueHasType {depth : Nat} {element : Hash}
    (found : typeSpecInRoot P context.objects context.root type = .ok (.box element))
    (typed : (valueHasType.go P context (depth + 1) value type memory).1 = .ok true) :
    ∃ value, (valueHasType.go P context depth value element memory).1 = .ok true := by
  rw [valueHasType.go, (persists_ofExcept _).bind_result] at typed
  obtain ⟨spec, same, result⟩ := typed
  obtain rfl := Except.ok.inj ((ofExcept_result.mp same).symm.trans found)
  cases value with
  | boxed cell =>
    obtain ⟨inner, _, typed⟩ := cellHasType_result.mp result
    exact ⟨inner, typed⟩
  | _ => cases result

/-- A number has the type of its width and sign. -/
theorem valueHasType_int {depth : Nat} {v : IntValue}
    (found : typeSpecInRoot P context.objects context.root type = .ok (.builtin v.type.name)) :
    (valueHasType.go P context (depth + 1) (.int v) type memory).1 = .ok true := by
  rw [valueHasType.go, (persists_ofExcept _).bind_result]
  exact ⟨_, ofExcept_result.mpr found, by simp [Pure.pure]⟩

/-- An enum that holds boxes of itself only has no values: there is no end to one. -/
theorem not_hasType_of_boxes {variants : List TypeFieldSpec}
    (found : typeSpecInRoot P context.objects context.root type = .ok (.enum variants))
    (boxes : ∀ v ∈ variants,
      typeSpecInRoot P context.objects context.root v.typeHash = .ok (.box type)) :
    ¬ HasType P context memory cell type := by
  rintro ⟨value, depth, -, typed⟩
  induction depth using Nat.strong_induction_on generalizing value with
  | h depth ih =>
    cases depth with
    | zero => cases typed
    | succ depth =>
      obtain ⟨variant, _, entry, payload, _, listed, _, typed⟩ := (valueHasType_enum found).mp typed
      cases depth with
      | zero => cases typed
      | succ depth =>
        have box := boxes entry (List.mem_of_find?_eq_some listed)
        obtain ⟨element, typed⟩ := element_of_valueHasType box typed
        exact ih depth (by omega) element typed

/-- A value of an enum is a variant with a payload. -/
theorem hasType_enum_iff {variants : List TypeFieldSpec}
    (found : typeSpecInRoot P context.objects context.root type = .ok (.enum variants)) :
    HasType P context memory cell type ↔ ∃ variant inner entry,
      memory[cell]? = some (.enum variant inner) ∧
      variants.find? (·.name == variant) = some entry ∧
      HasType P context memory inner entry.typeHash := by
  constructor
  · rintro ⟨value, depth, held, result⟩
    cases depth with
    | zero => cases result
    | succ depth =>
      obtain ⟨variant, inner, entry, payload, rfl, listed, heldInside, typed⟩ :=
        (valueHasType_enum found).mp result
      exact ⟨variant, inner, entry, held, listed, payload, depth, heldInside, typed⟩
  · rintro ⟨variant, inner, entry, held, listed, payload, depth, heldInside, typed⟩
    exact ⟨_, depth + 1, held, (valueHasType_enum found).mpr
      ⟨variant, inner, entry, payload, rfl, listed, heldInside, typed⟩⟩

/-- A cell keeps its type when there are more cells. -/
theorem HasType.append (typed : HasType P context memory cell type) (more : Memory) :
    HasType P context (memory ++ more) cell type := by
  obtain ⟨value, depth, held, result⟩ := typed
  refine ⟨value, depth, ?_,
    (persists_valueHasType depth value type memory).2 _ _ ⟨more, rfl⟩ result⟩
  exact borrow_result.mp ((persists_borrow cell memory).2 _ _ ⟨more, rfl⟩ (borrow_result.mpr held))

end Values

/-! ### What a pattern matches -/

/-- A pattern matches what a cell holds. -/
def RawPattern.Matches (memory : Memory) : RawPattern → ValueCell → Prop
  | .binding _, _ | .wildcard, _ => True
  | .variant name sub, cell =>
    ∃ inner, memory[cell]? = some (.enum name inner) ∧ sub.Matches memory inner

/-- The typed pattern that is stored for a pattern. -/
def RawPattern.typed : RawPattern → TypedPattern
  | .binding _ | .wildcard => .node none false none
  | .variant name sub => .node (some name) (sub matches .binding _) <|
    match sub with
    | .variant .. => some sub.typed
    | _ => none

section Matches

variable {memory : Memory} {cell : ValueCell}

theorem matches_of_isCatchAll {p : RawPattern} (all : p.isCatchAll) : p.Matches memory cell := by
  cases p with
  | binding => exact trivial
  | wildcard => exact trivial
  | variant => cases all

theorem matchTypedPattern_eq (variant : Option String) (binds : Bool)
    (payload : Option TypedPattern) (cell : ValueCell) :
    matchTypedPattern (.node variant binds payload) cell = (do
      match ← borrow cell with
      | .enum found inner =>
        if variant ≠ some found then return none
        else if binds then return some (some inner)
        else match payload with
          | some pattern => matchTypedPattern pattern inner
          | none => return some none
      | _ => return none) := by
  -- the recursion goes through an option, so the equation is one of its compiled form
  delta matchTypedPattern TypedPattern.brecOn TypedPattern.brecOn.go
  cases payload with
  | none => rfl
  | some pattern => rfl

/-- One step of the evaluator: the variant, and then what is asked of the payload. -/
theorem matchTypedPattern_node {variant : String} {binds : Bool} {payload : Option TypedPattern} :
    (∃ leaf, (matchTypedPattern (.node (some variant) binds payload) cell memory).1 =
        .ok (some leaf)) ↔
      ∃ inner, memory[cell]? = some (.enum variant inner) ∧ (binds ∨ ∀ pattern ∈ payload,
        ∃ leaf, (matchTypedPattern pattern inner memory).1 = .ok (some leaf)) := by
  rw [matchTypedPattern_eq]
  simp only [(persists_borrow cell).bind_result, borrow_result]
  constructor
  · rintro ⟨leaf, value, held, result⟩
    cases value with
    | enum found inner =>
      dsimp only at result
      split_ifs at result with other bound
      · cases result
      · obtain rfl := Option.some.inj (not_not.mp other)
        exact ⟨inner, held, Or.inl bound⟩
      · obtain rfl := Option.some.inj (not_not.mp other)
        refine ⟨inner, held, Or.inr fun pattern asked => ⟨leaf, ?_⟩⟩
        obtain rfl := asked
        exact result
    | _ => cases result
  · rintro ⟨inner, held, asked⟩
    cases binds with
    | true => exact ⟨some inner, _, held, by simp [Pure.pure]⟩
    | false =>
      cases payload with
      | none => exact ⟨none, _, held, by simp [Pure.pure]⟩
      | some pattern =>
        obtain ⟨leaf, result⟩ := (asked.resolve_left (by simp)) pattern rfl
        exact ⟨leaf, _, held, by simpa using result⟩

/-- The evaluator matches what a pattern says. -/
theorem matchTypedPattern_typed (variant : String) (sub : RawPattern) :
    (∃ leaf, (matchTypedPattern (RawPattern.variant variant sub).typed cell memory).1 =
      .ok (some leaf)) ↔ (RawPattern.variant variant sub).Matches memory cell := by
  induction sub generalizing variant cell with
  | binding name => simp [RawPattern.typed, matchTypedPattern_node, RawPattern.Matches]
  | wildcard => simp [RawPattern.typed, matchTypedPattern_node, RawPattern.Matches]
  | variant name inner ih =>
    rw [RawPattern.typed, matchTypedPattern_node, RawPattern.Matches]
    simp [ih]

end Matches

/-! ### What is stored of an arm -/

section Stored

variable {P : Primitives} {objects : Objects} {root : ProgramRootPayload} {memory : Memory}
  {cell : ValueCell}

theorem readPattern_eq (node : JsonValue) : readPattern node =
    .node (JsonValue.asStr? (node.get? "variant"))
      (JsonValue.asStr? (node.get? "binding_name")).isSome
      ((node.get? "payload_pattern").map readPattern) := by
  rw [readPattern]
  split <;> rename_i found <;> rw [found] <;> rfl

/-- The pattern of a payload is read back as the pattern that it is. -/
theorem readPattern_typePayloadPattern {p : RawPattern} {matchType : Hash} {node : JsonValue}
    {leaf : Option (String × Hash)}
    (run : typePayloadPattern P objects root p matchType = .ok (node, leaf)) :
    readPattern node = p.typed ∧ ∃ name sub, p = .variant name sub := by
  induction p generalizing matchType node leaf with
  | binding | wildcard => cases run
  | variant name sub ih =>
    refine ⟨?_, name, sub, rfl⟩
    rw [typePayloadPattern] at run
    obtain ⟨spec, _, run⟩ := Except.bind_eq_ok.mp run
    cases spec with
    | enum variants =>
      obtain ⟨_, _, run⟩ := Except.bind_eq_ok.mp run
      obtain ⟨payload, _, run⟩ := Except.bind_eq_ok.mp run
      cases sub with
      | binding bound =>
        obtain ⟨_, _, run⟩ := Except.bind_eq_ok.mp run
        cases Except.pure_eq_ok.mp run
        rw [readPattern_eq]
        rfl
      | wildcard =>
        cases Except.pure_eq_ok.mp run
        rw [readPattern_eq]
        rfl
      | variant inner rest =>
        obtain ⟨⟨child, bound⟩, below, run⟩ := Except.bind_eq_ok.mp run
        cases Except.pure_eq_ok.mp run
        rw [readPattern_eq, RawPattern.typed, ← (ih below).1]
        rfl
    | _ =>
      obtain ⟨_, _, run⟩ := Except.bind_eq_ok.mp run
      cases run

variable (memory) in
/-- What is stored of an arm matches what a cell holds. -/
def ArmMatches (arm : JsonValue) (cell : ValueCell) : Prop :=
  ∃ leaf, (matchTypedPattern (readPattern arm) cell memory).1 = .ok (some leaf)

/-- What is stored of an arm matches what its pattern matches. -/
theorem armMatches_iff {variants : List TypeFieldSpec} {arm : RawCaseArm} {body : Hash}
    {typed : TypedArm} (run : typeVariantArm P objects root variants arm body = .ok typed) :
    ArmMatches memory typed.node cell ↔ typed.pattern.Matches memory cell := by
  obtain ⟨name, _, run⟩ := Except.bind_eq_ok.mp run
  obtain ⟨_, _, run⟩ := Except.bind_eq_ok.mp run
  obtain ⟨payload, _, run⟩ := Except.bind_eq_ok.mp run
  suffices read : readPattern typed.node = typed.pattern.typed ∧
      ∃ sub, typed.pattern = .variant name sub by
    obtain ⟨read, sub, shape⟩ := read
    rw [ArmMatches, read, shape, matchTypedPattern_typed]
  cases asked : arm.payloadPattern with
  | some pattern =>
    rw [asked] at run
    obtain ⟨⟨node, leaf⟩, below, run⟩ := Except.bind_eq_ok.mp run
    obtain rfl := Except.pure_eq_ok.mp run
    obtain ⟨read, name', sub, rfl⟩ := readPattern_typePayloadPattern below
    refine ⟨?_, .variant name' sub, ?_⟩
    · rw [readPattern_eq, armScrutineePattern, asked, RawPattern.typed, ← read]
      rfl
    · rw [armScrutineePattern, asked]
  | none =>
    rw [asked] at run
    obtain ⟨leaf, _, run⟩ := Except.bind_eq_ok.mp run
    obtain rfl := Except.pure_eq_ok.mp run
    rw [readPattern_eq, armScrutineePattern, asked]
    cases arm.binding with
    | some bound => exact ⟨rfl, _, rfl⟩
    | none => exact ⟨rfl, _, rfl⟩

end Stored

end CodeDb
