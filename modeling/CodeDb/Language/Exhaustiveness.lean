import CodeDb.Language.EnumValues
import CodeDb.Lib.Owned
import CodeDb.Operations.TypeRoundTrip

/-!
# Exhaustiveness

Patterns that are exhaustive match every value of the enum, and of patterns that pass the
check no two match the same value. The other direction needs values: where every type of a
payload has one, patterns that match every value are exhaustive. An enum that holds boxes of
itself only has none, and patterns have to cover it all the same.

## Main definitions

* `PayloadOf`, `HasValue` — the types of payloads, and those that have values

## Main results

* `exists_matches` — exhaustive patterns match every value
* `exists_unmatched` — others leave out a value, if payloads have values
* `patternsExhaustive_iff` — both, of arms and what the evaluator makes of them
-/

namespace CodeDb

/-! ### What the checks say -/

section Checks

variable {P : Primitives} {objects : Objects} {root : ProgramRootPayload} {type : Hash}
  {patterns : List RawPattern}

/-- What holds of patterns whenever it holds of what they ask of payloads holds of all. -/
theorem inductionOnPayloads {motive : Hash → List RawPattern → Prop}
    (step : ∀ type patterns, (∀ variant payload, subPatterns variant patterns ≠ [] →
      motive payload (subPatterns variant patterns)) → motive type patterns)
    (type : Hash) (patterns : List RawPattern) : motive type patterns :=
  step type patterns fun variant payload named =>
    have := totalDepth_subPatterns_lt named
    inductionOnPayloads step payload (subPatterns variant patterns)
termination_by totalDepth patterns

/-- Patterns are well formed if there is at most one, and it matches everything, or if all
are over variants, and what they ask of the payload of each variant is well formed. -/
theorem checkPatternsWellFormed_cases
    (accepted : checkPatternsWellFormed P objects root type patterns = .ok ()) :
    (patterns = [] ∨ ∃ p, patterns = [p] ∧ p.isCatchAll) ∨
      (∀ p ∈ patterns, ¬ p.isCatchAll) ∧
        ∃ variants, typeSpecInRoot P objects root type = .ok (.enum variants) ∧
          ∀ v ∈ variants, subPatterns v.name patterns ≠ [] →
            checkPatternsWellFormed P objects root v.typeHash (subPatterns v.name patterns) =
              .ok () := by
  rw [checkPatternsWellFormed] at accepted
  split_ifs at accepted with several mixed unnamed
  · -- no pattern is over a variant
    have all : ∀ p ∈ patterns, p.isCatchAll := by simpa using unnamed
    have few : patterns.length ≤ 1 := by
      rw [← List.countP_eq_length.mpr all]
      omega
    refine Or.inl ?_
    match patterns, few with
    | [], _ => exact Or.inl rfl
    | [p], _ => exact Or.inr ⟨p, rfl, all p List.mem_cons_self⟩
  · have named : patterns.any (! ·.isCatchAll) = true := by simpa using unnamed
    have none : patterns.countP RawPattern.isCatchAll = 0 := by
      by_contra some
      exact mixed ⟨by omega, named⟩
    obtain ⟨spec, found, accepted⟩ := Except.bind_eq_ok.mp accepted
    cases spec with
    | enum variants =>
      refine Or.inr ⟨List.countP_eq_zero.mp none, variants, found, fun v listed named => ?_⟩
      have passes := Except.forM_eq_ok.mp accepted v listed
      rwa [dif_pos named] at passes
    | _ => cases accepted

theorem patternsExhaustive_eq_ok_true :
    patternsExhaustive P objects root type patterns = .ok true ↔
      (∃ p ∈ patterns, p.isCatchAll) ∨
        ∃ variants, typeSpecInRoot P objects root type = .ok (.enum variants) ∧
          ∀ v ∈ variants, subPatterns v.name patterns ≠ [] ∧
            patternsExhaustive P objects root v.typeHash (subPatterns v.name patterns) =
              .ok true := by
  rw [patternsExhaustive]
  split_ifs with all
  · exact iff_of_true rfl (Or.inl (by simpa using all))
  · have none : ¬ ∃ p ∈ patterns, p.isCatchAll := by simpa using all
    rw [or_iff_right none, Except.bind_eq_ok]
    constructor
    · rintro ⟨spec, found, covered⟩
      cases spec with
      | enum variants =>
        refine ⟨variants, found, fun v listed => ?_⟩
        have passes := Except.allM_eq_ok_true.mp covered v listed
        dsimp only at passes
        split_ifs at passes with named
        · exact ⟨named, passes⟩
        · cases passes
      | _ => cases covered
    · rintro ⟨variants, found, covered⟩
      refine ⟨_, found, Except.allM_eq_ok_true.mpr fun v listed => ?_⟩
      obtain ⟨named, passes⟩ := covered v listed
      rw [dif_pos named, passes]

theorem not_isCatchAll_of_not_exhaustive
    (fails : patternsExhaustive P objects root type patterns = .ok false) :
    ∀ p ∈ patterns, ¬ p.isCatchAll := by
  rw [patternsExhaustive] at fails
  split_ifs at fails with all
  · cases fails
  · simpa using all

/-- Patterns over an enum that are not exhaustive leave out what some variant has. -/
theorem exists_uncovered
    (fails : patternsExhaustive P objects root type patterns = .ok false)
    {variants : List TypeFieldSpec}
    (found : typeSpecInRoot P objects root type = .ok (.enum variants)) :
    ∃ v ∈ variants, subPatterns v.name patterns = [] ∨
      patternsExhaustive P objects root v.typeHash (subPatterns v.name patterns) = .ok false := by
  rw [patternsExhaustive] at fails
  split_ifs at fails with all
  · cases fails
  obtain ⟨spec, found', fails⟩ := Except.bind_eq_ok.mp fails
  obtain rfl := Except.ok.inj (found'.symm.trans found)
  obtain ⟨v, listed, uncovered⟩ := Except.exists_of_allM_eq_ok_false fails
  refine ⟨v, listed, ?_⟩
  dsimp only at uncovered
  split_ifs at uncovered with named
  · exact Or.inr uncovered
  · exact Or.inl (not_not.mp named)

/-- Well-formed patterns over variants are over an enum. -/
theorem enum_of_checkPatternsWellFormed
    (accepted : checkPatternsWellFormed P objects root type patterns = .ok ())
    (named : ∀ p ∈ patterns, ¬ p.isCatchAll)
    (isEnum : patterns = [] → ∃ variants,
      typeSpecInRoot P objects root type = .ok (.enum variants)) :
    ∃ variants, typeSpecInRoot P objects root type = .ok (.enum variants) ∧
      ∀ v ∈ variants, subPatterns v.name patterns ≠ [] →
        checkPatternsWellFormed P objects root v.typeHash (subPatterns v.name patterns) =
          .ok () := by
  rcases checkPatternsWellFormed_cases accepted with (rfl | ⟨p, rfl, all⟩) | ⟨_, below⟩
  · obtain ⟨variants, found⟩ := isEnum rfl
    exact ⟨variants, found, fun v _ named => absurd rfl named⟩
  · exact absurd all (named p List.mem_cons_self)
  · exact below

/-- Well-formed patterns over an enum are exhaustive or not. -/
theorem patternsExhaustive_isOk
    (accepted : checkPatternsWellFormed P objects root type patterns = .ok ())
    (isEnum : patterns = [] → ∃ variants,
      typeSpecInRoot P objects root type = .ok (.enum variants)) :
    ∃ b, patternsExhaustive P objects root type patterns = .ok b := by
  induction type, patterns using inductionOnPayloads with
  | step type patterns ih =>
    rw [patternsExhaustive]
    split_ifs with all
    · exact ⟨true, rfl⟩
    obtain ⟨variants, found, below⟩ :=
      enum_of_checkPatternsWellFormed accepted (by simpa using all) isEnum
    have each : ∀ v ∈ variants, ∃ b, (if _named : subPatterns v.name patterns ≠ [] then
        patternsExhaustive P objects root v.typeHash (subPatterns v.name patterns)
        else .ok false) = .ok b := by
      intro v listed
      split_ifs with named
      · exact ih v.name v.typeHash named (below v listed named) fun none => absurd none named
      · exact ⟨false, rfl⟩
    obtain ⟨b, whole⟩ := Except.allM_isOk each
    exact ⟨b, Except.bind_eq_ok.mpr ⟨_, found, whole⟩⟩

end Checks

/-! ### Exhaustiveness -/

section Exhaustiveness

variable {P : Primitives} {context : EvalContext} {type : Hash} {patterns : List RawPattern}
  {memory : Memory} {cell : ValueCell}

/-- Exhaustive patterns match every value. -/
theorem exists_matches
    (covers : patternsExhaustive P context.objects context.root type patterns = .ok true)
    (typed : HasType P context memory cell type) : ∃ p ∈ patterns, p.Matches memory cell := by
  induction type, patterns using inductionOnPayloads generalizing cell with
  | step type patterns ih =>
    rcases patternsExhaustive_eq_ok_true.mp covers with ⟨p, listed, all⟩ | ⟨variants, found, below⟩
    · exact ⟨p, listed, matches_of_isCatchAll all⟩
    · obtain ⟨variant, inner, entry, held, first, payload⟩ := (hasType_enum_iff found).mp typed
      obtain rfl : entry.name = variant := by simpa using List.find?_some first
      obtain ⟨named, covered⟩ := below entry (List.mem_of_find?_eq_some first)
      obtain ⟨sub, asked, matched⟩ := ih entry.name entry.typeHash named covered payload
      exact ⟨.variant entry.name sub, mem_subPatterns.mp asked, inner, held, matched⟩

/-- No two well-formed patterns match the same value. -/
theorem pairwise_not_matches
    (accepted : checkPatternsWellFormed P context.objects context.root type patterns = .ok ()) :
    patterns.Pairwise fun p q => ∀ memory cell, HasType P context memory cell type →
      ¬ (p.Matches memory cell ∧ q.Matches memory cell) := by
  induction type, patterns using inductionOnPayloads with
  | step type patterns ih =>
    rcases checkPatternsWellFormed_cases accepted with
      (rfl | ⟨p, rfl, _⟩) | ⟨named, variants, found, below⟩
    · exact .nil
    · exact List.pairwise_singleton _ _
    have each (v : TypeFieldSpec) (listed : v ∈ variants) :
        patterns.Pairwise fun p q => ∀ sub, p.subOf v.name = some sub →
          ∀ sub', q.subOf v.name = some sub' → ∀ memory cell,
            HasType P context memory cell v.typeHash →
              ¬ (sub.Matches memory cell ∧ sub'.Matches memory cell) := by
      refine List.pairwise_filterMap.mp ?_
      by_cases asked : subPatterns v.name patterns = []
      · rw [← subPatterns, asked]
        exact .nil
      · exact ih v.name v.typeHash asked (below v listed asked)
    rw [List.pairwise_iff_getElem]
    rintro i j boundI boundJ before memory cell typed ⟨first, second⟩
    obtain ⟨variant, inner, entry, held, found, payload⟩ := (hasType_enum_iff found).mp typed
    obtain rfl : entry.name = variant := by simpa using List.find?_some found
    have goesOn (p : RawPattern) (listed : p ∈ patterns) (matched : p.Matches memory cell) :
        ∃ sub, p.subOf entry.name = some sub ∧ sub.Matches memory inner := by
      cases p with
      | binding | wildcard => exact absurd rfl (named _ listed)
      | variant name sub =>
        obtain ⟨inner', held', matched⟩ := matched
        obtain ⟨rfl, rfl⟩ := Value.enum.inj (Option.some.inj (held'.symm.trans held))
        exact ⟨sub, RawPattern.subOf_eq_some.mpr rfl, matched⟩
    obtain ⟨sub, asked, matched⟩ := goesOn _ (List.getElem_mem boundI) first
    obtain ⟨sub', asked', matched'⟩ := goesOn _ (List.getElem_mem boundJ) second
    have apart := List.pairwise_iff_getElem.mp (each entry (List.mem_of_find?_eq_some found))
      i j boundI boundJ before
    exact apart sub asked sub' asked' memory inner payload ⟨matched, matched'⟩

variable (P context) in
/-- A type is that of a payload of an enum. -/
def PayloadOf (whole payload : Hash) : Prop :=
  ∃ variants, typeSpecInRoot P context.objects context.root whole = .ok (.enum variants) ∧
    payload ∈ variants.map (·.typeHash)

variable (P context) in
/-- A type has a value. -/
def HasValue (type : Hash) : Prop := ∃ memory cell, HasType P context memory cell type

/-- Where payloads have values, patterns that are not exhaustive leave out a value. -/
theorem exists_unmatched
    (accepted : checkPatternsWellFormed P context.objects context.root type patterns = .ok ())
    (isEnum : patterns = [] → ∃ variants,
      typeSpecInRoot P context.objects context.root type = .ok (.enum variants))
    (values : ∀ payload, Relation.TransGen (PayloadOf P context) type payload →
      HasValue P context payload)
    (fails : patternsExhaustive P context.objects context.root type patterns = .ok false) :
    ∃ memory cell, ∀ more, HasType P context (memory ++ more) cell type ∧
      ∀ p ∈ patterns, ¬ p.Matches (memory ++ more) cell := by
  induction type, patterns using inductionOnPayloads with
  | step type patterns ih =>
    have named := not_isCatchAll_of_not_exhaustive fails
    obtain ⟨variants, found, below⟩ := enum_of_checkPatternsWellFormed accepted named isEnum
    obtain ⟨v, listed, uncovered⟩ := exists_uncovered fails found
    have isPayload : PayloadOf P context type v.typeHash :=
      ⟨variants, found, List.mem_map_of_mem listed⟩
    have first := (Owned.find?_eq_some_iff_mem _ (nodup_variants found) v).mpr listed
    -- a payload that nothing asked of it matches: any at all, or one from further down
    obtain ⟨memory, inner, unmatched⟩ : ∃ memory inner, ∀ more,
        HasType P context (memory ++ more) inner v.typeHash ∧
          ∀ sub ∈ subPatterns v.name patterns, ¬ sub.Matches (memory ++ more) inner := by
      by_cases asked : subPatterns v.name patterns = []
      · obtain ⟨memory, inner, typed⟩ := values v.typeHash (.single isPayload)
        exact ⟨memory, inner, fun more => ⟨typed.append more, by simp [asked]⟩⟩
      · exact ih v.name v.typeHash asked (below v listed asked) (fun none => absurd none asked)
          (fun payload path => values payload (.head isPayload path))
          (uncovered.resolve_left asked)
    refine ⟨memory.push (.enum v.name inner), memory.size, fun more => ?_⟩
    have held : (memory.push (.enum v.name inner) ++ more)[memory.size]? =
        some (.enum v.name inner) := by
      rw [Array.getElem?_append_left (by simp), Array.getElem?_push_size]
    have grown : memory.push (.enum v.name inner) ++ more =
        memory ++ (#[.enum v.name inner] ++ more) := by
      rw [← Array.append_assoc, Array.push_eq_append]
    obtain ⟨typed, apart⟩ := unmatched (#[.enum v.name inner] ++ more)
    rw [← grown] at typed apart
    refine ⟨(hasType_enum_iff found).mpr ⟨v.name, inner, v, held, first, typed⟩, ?_⟩
    intro p asked matched
    cases p with
    | binding | wildcard => exact absurd rfl (named _ asked)
    | variant name sub =>
      obtain ⟨inner', held', matched⟩ := matched
      obtain ⟨rfl, rfl⟩ := Value.enum.inj (Option.some.inj (held'.symm.trans held))
      exact apart sub (mem_subPatterns.mpr asked) matched

/-- Exhaustive arms match every value, and no two arms match the same one. Where payloads
have values, arms that match every value are exhaustive. -/
theorem patternsExhaustive_iff {variants : List TypeFieldSpec} {arms : List (RawCaseArm × Hash)}
    {typed : List TypedArm}
    (found : typeSpecInRoot P context.objects context.root type = .ok (.enum variants))
    (typing : arms.mapM (fun arm =>
      typeVariantArm P context.objects context.root variants arm.1 arm.2) = .ok typed)
    (accepted : checkPatternsWellFormed P context.objects context.root type
      (typed.map (·.pattern)) = .ok ()) :
    (patternsExhaustive P context.objects context.root type (typed.map (·.pattern)) = .ok true →
      ∀ memory cell, HasType P context memory cell type →
        ∃ arm ∈ typed, ArmMatches memory arm.node cell) ∧
    ((∀ payload, Relation.TransGen (PayloadOf P context) type payload →
        HasValue P context payload) →
      (∀ memory cell, HasType P context memory cell type →
        ∃ arm ∈ typed, ArmMatches memory arm.node cell) →
      patternsExhaustive P context.objects context.root type (typed.map (·.pattern)) = .ok true) ∧
    typed.Pairwise fun a b => ∀ memory cell, HasType P context memory cell type →
      ¬ (ArmMatches memory a.node cell ∧ ArmMatches memory b.node cell) := by
  -- what an arm matches is what its pattern does
  have means (arm : TypedArm) (listed : arm ∈ typed) (memory : Memory) (cell : ValueCell) :
      ArmMatches memory arm.node cell ↔ arm.pattern.Matches memory cell := by
    obtain ⟨raw, _, typing⟩ := Except.exists_of_mem_mapM typing listed
    exact armMatches_iff typing
  refine ⟨fun covers memory cell value => ?_, fun values matched => ?_, ?_⟩
  · obtain ⟨p, listed, matched⟩ := exists_matches covers value
    obtain ⟨arm, isArm, rfl⟩ := List.mem_map.mp listed
    exact ⟨arm, isArm, (means arm isArm memory cell).mpr matched⟩
  · obtain ⟨b, result⟩ := patternsExhaustive_isOk accepted fun _ => ⟨variants, found⟩
    cases b with
    | true => exact result
    | false =>
      obtain ⟨memory, cell, unmatched⟩ :=
        exists_unmatched accepted (fun _ => ⟨variants, found⟩) values result
      obtain ⟨value, apart⟩ := unmatched #[]
      obtain ⟨arm, listed, armMatches⟩ := matched _ _ value
      exact absurd ((means arm listed _ _).mp armMatches)
        (apart arm.pattern (List.mem_map_of_mem listed))
  · have apart := List.pairwise_map.mp (pairwise_not_matches accepted)
    refine apart.imp_of_mem fun {a b} listed listed' apart memory cell value => ?_
    rw [means a listed, means b listed']
    exact apart memory cell value

end Exhaustiveness

/-! ### An enum without values -/

def never : Hash := "sha256:never"

def neverPayload : JsonValue :=
  .object [("region_args", .strings []), ("type_kind", .string "Named"),
    ("type_symbol", .string never)]

def typeNever : Hash := objectHash plain "Type" neverPayload

def boxOfNever : JsonValue :=
  .object [("element", .string typeNever), ("type_kind", .string "Box")]

def typeBoxOfNever : Hash := objectHash plain "Type" boxOfNever

/-- An enum with one variant. -/
def oneVariant (typeSymbol variantSymbol : Hash) (name : String) (payload : Hash) :
    TypeDefinition :=
  .enum ⟨typeSymbol, [], [], [⟨variantSymbol, name, payload⟩]⟩

theorem oneVariant_valid (typeSymbol : Hash) {variantSymbol payload : Hash} {name : String}
    (prefixed : hasHashPrefix variantSymbol) (identifier : isProjectionIdentifier name)
    (isHash : hasHashPrefix payload) :
    (oneVariant typeSymbol variantSymbol name payload).Valid where
  regionParams := rfl
  typeParams := rfl
  members := by
    simp [oneVariant, TypeDefinition.body, validateMemberDefs, validateMemberDefs.go,
      validateProjectionIdentifier, identifier, prefixed, isHash, bind, Except.bind]

/-- The only variant holds a box of the enum. -/
def neverDefinition : TypeDefinition := oneVariant never "sha256:again" "again" typeBoxOfNever

theorem neverDefinition_valid : neverDefinition.Valid :=
  oneVariant_valid never (by decide) (by decide) (hasHashPrefix_objectHash plain "Type" boxOfNever)

def signVariants : List TypeFieldSpec := [⟨"negative", typeI64⟩, ⟨"positive", typeI64⟩]

/-- An enum of numbers by their sign. -/
def typeSign : Hash := objectHash plain "Type" (enumPayload signVariants)

def nestedVariants : List TypeFieldSpec := [⟨"sign", typeSign⟩]

/-- An enum with the other one as its payload. -/
def typeNested : Hash := objectHash plain "Type" (enumPayload nestedVariants)

def eitherVariants : List TypeFieldSpec := [⟨"never", typeNever⟩, ⟨"some", typeI64⟩]

/-- An enum of a number or of what has no values. -/
def typeEither : Hash := objectHash plain "Type" (enumPayload eitherVariants)

def neverEntries : List (String × JsonValue) :=
  [("Type", neverPayload), ("Type", boxOfNever), ("Type", enumPayload signVariants),
    ("Type", enumPayload nestedVariants), ("Type", enumPayload eitherVariants),
    (neverDefinition.keys.objectKind, neverDefinition.payload),
    ("TypeDef", typeDefPayload never neverDefinition)]

@[irreducible] def neverObjects : Objects := putAll plain ∅ neverEntries

def neverContext : EvalContext where
  objects := neverObjects
  root := { ProgramRootPayload.empty with
    types := [⟨never, objectHash plain "TypeDef" (typeDefPayload never neverDefinition)⟩] }
  processArgs := []
  debugAssertions := false

theorem stored_neverObjects {kind : String} {payload : JsonValue}
    (mem : (kind, payload) ∈ neverEntries) : Stored plain neverObjects kind payload := by
  have empty : Addressed plain ∅ := fun hash _ found =>
    nomatch (AList.lookup_empty hash).symm.trans found
  unfold neverObjects
  exact stored_putAll plain_reliable empty mem

theorem typeSpec_typeNever : typeSpec plain neverObjects typeNever = .ok (.named never [] []) := by
  have fixed : Fixed plain.floatText neverPayload :=
    Fixed.object (by simp only [List.map]; decide) (by simp [Fixed.string, fixed_strings])
  rw [typeNever, (stored_neverObjects (.head _)).typeSpec fixed (by simp [neverPayload])]
  rfl

theorem typeSpec_typeBoxOfNever :
    typeSpec plain neverObjects typeBoxOfNever = .ok (.box typeNever) := by
  have fixed : Fixed plain.floatText boxOfNever :=
    Fixed.object (by simp only [List.map]; decide) (by simp [Fixed.string])
  have valid : validateTypeHashText "box element" typeNever = .ok () :=
    if_pos (hasHashPrefix_objectHash ..)
  rw [typeBoxOfNever, (stored_neverObjects (.tail _ (.head _))).typeSpec fixed
    (by simp [boxOfNever])]
  exact Except.bind_eq_ok.mpr ⟨"Box", rfl, Except.bind_eq_ok.mpr ⟨typeNever,
    Except.bind_eq_ok.mpr ⟨typeNever, rfl, Except.bind_eq_ok.mpr ⟨(), valid, rfl⟩⟩, rfl⟩⟩

theorem typeSpecInRoot_typeNever :
    typeSpecInRoot plain neverContext.objects neverContext.root typeNever =
      .ok (.enum [⟨"again", typeBoxOfNever⟩]) := by
  have definition : typeDefinition plain neverObjects
      (objectHash plain "TypeDef" (typeDefPayload never neverDefinition)) = .ok neverDefinition :=
    typeDefinition_stored
      (stored_neverObjects (.tail _ (.tail _ (.tail _ (.tail _ (.tail _ (.head _)))))))
      (stored_neverObjects (.tail _ (.tail _ (.tail _ (.tail _ (.tail _ (.tail _ (.head _))))))))
      neverDefinition_valid
  have listed : rootType neverContext.root never =
      some ⟨never, objectHash plain "TypeDef" (typeDefPayload never neverDefinition)⟩ := by
    simp [neverContext, rootType]
  exact typeSpecInRoot_enum typeSpec_typeNever listed definition rfl rfl

theorem not_hasType_typeNever (memory : Memory) (cell : ValueCell) :
    ¬ HasType plain neverContext memory cell typeNever := by
  refine not_hasType_of_boxes typeSpecInRoot_typeNever ?_
  rw [List.forall_mem_singleton]
  exact typeSpecInRoot_of_not_named typeSpec_typeBoxOfNever nofun

theorem typeSpecInRoot_typeSign :
    typeSpecInRoot plain neverContext.objects neverContext.root typeSign =
      .ok (.enum signVariants) := by
  have identifiers : ∀ v ∈ signVariants, isProjectionIdentifier v.name := by
    rw [signVariants, List.forall_mem_cons, List.forall_mem_singleton]
    decide
  have ascending : signVariants.Pairwise (·.name < ·.name) := List.pairwise_pair.mpr (by decide)
  have stored := stored_neverObjects (.tail _ (.tail _ (.head _)))
  exact typeSpecInRoot_of_not_named
    (stored.typeSpec_enum (List.cons_ne_nil _ _) identifiers ascending) nofun

theorem typeSpecInRoot_typeNested :
    typeSpecInRoot plain neverContext.objects neverContext.root typeNested =
      .ok (.enum nestedVariants) :=
  typeSpecInRoot_of_not_named
    ((stored_neverObjects (.tail _ (.tail _ (.tail _ (.head _))))).typeSpec_enum
      (List.cons_ne_nil _ _) (by rw [nestedVariants, List.forall_mem_singleton]; decide)
      (List.pairwise_singleton _ _)) nofun

theorem typeSpecInRoot_typeEither :
    typeSpecInRoot plain neverContext.objects neverContext.root typeEither =
      .ok (.enum eitherVariants) := by
  have identifiers : ∀ v ∈ eitherVariants, isProjectionIdentifier v.name := by
    rw [eitherVariants, List.forall_mem_cons, List.forall_mem_singleton]
    decide
  have ascending : eitherVariants.Pairwise (·.name < ·.name) := List.pairwise_pair.mpr (by decide)
  exact typeSpecInRoot_of_not_named
    ((stored_neverObjects (.tail _ (.tail _ (.tail _ (.tail _ (.head _)))))).typeSpec_enum
      (List.cons_ne_nil _ _) identifiers ascending) nofun

theorem typeSpecInRoot_typeI64 :
    typeSpecInRoot plain neverContext.objects neverContext.root typeI64 = .ok (.builtin "I64") :=
  typeSpecInRoot_of_not_named (typeSpec_typeI64 neverContext.objects) nofun

/-- The arm of a number. -/
def numberArm : RawCaseArm := ⟨some "some", some "n", none⟩

def numberPattern : RawPattern := .variant "some" (.binding "n")

def typedNumberArm : TypedArm where
  node := .object [("binding_name", .string "n"), ("body", .string "sha256:body"),
    ("variant", .string "some")]
  pattern := numberPattern
  leaf := some ("n", typeI64)

section NumberArm

variable {variants : List TypeFieldSpec} {type : Hash}

theorem typeVariantArm_numberArm (variants : List TypeFieldSpec)
    (found : variants.find? (·.name == "some") = some ⟨"some", typeI64⟩) :
    typeVariantArm plain neverContext.objects neverContext.root variants numberArm "sha256:body" =
      .ok typedNumberArm := by
  have variant : validateProjectionIdentifier "enum variant" "some" = .ok () := if_pos (by decide)
  have binding : validateProjectionIdentifier "case binding" "n" = .ok () := if_pos (by decide)
  refine Except.bind_eq_ok.mpr ⟨"some", rfl, Except.bind_eq_ok.mpr ⟨(), variant, ?_⟩⟩
  refine Except.bind_eq_ok.mpr ⟨⟨"some", typeI64⟩, by rw [found]; rfl, ?_⟩
  exact Except.bind_eq_ok.mpr ⟨some ("n", typeI64),
    Except.bind_eq_ok.mpr ⟨(), binding, rfl⟩, rfl⟩

theorem subPatterns_numberPattern (variant : String) :
    subPatterns variant [numberPattern] = if "some" = variant then [.binding "n"] else [] := by
  by_cases same : "some" = variant
  · simp [subPatterns, numberPattern, RawPattern.subOf, same]
  · simp [subPatterns, numberPattern, RawPattern.subOf, same]

theorem checkPatternsWellFormed_numberPattern
    (found : typeSpecInRoot plain neverContext.objects neverContext.root type =
      .ok (.enum variants)) :
    checkPatternsWellFormed plain neverContext.objects neverContext.root type [numberPattern] =
      .ok () := by
  have leaf (type : Hash) : checkPatternsWellFormed plain neverContext.objects neverContext.root
      type [.binding "n"] = .ok () := by
    rw [checkPatternsWellFormed]
    rfl
  rw [checkPatternsWellFormed]
  refine Except.bind_eq_ok.mpr ⟨_, found, Except.forM_eq_ok.mpr ?_⟩
  intro v listed
  dsimp only
  split_ifs with named
  · rw [subPatterns_numberPattern] at named ⊢
    split_ifs at named ⊢ with same
    · exact leaf _
    · exact absurd rfl named
  · rfl

end NumberArm

theorem hasValue_typeI64 : HasValue plain neverContext typeI64 :=
  ⟨#[.int ⟨i64, 0⟩], 0, .int ⟨i64, 0⟩, 1, rfl, valueHasType_int typeSpecInRoot_typeI64⟩

/-- The arm over a number of a sign, with what it makes of the number. -/
def signArm (sign : String) (sub : RawPattern) : RawCaseArm :=
  ⟨some "sign", none, some (.variant sign sub)⟩

def typedNegativeArm : TypedArm where
  node := .object [("body", .string "sha256:body"), ("payload_pattern",
    .object [("binding_name", .string "n"), ("variant", .string "negative")]),
    ("variant", .string "sign")]
  pattern := .variant "sign" (.variant "negative" (.binding "n"))
  leaf := some ("n", typeI64)

def typedPositiveArm : TypedArm where
  node := .object [("body", .string "sha256:body"),
    ("payload_pattern", .object [("variant", .string "positive")]), ("variant", .string "sign")]
  pattern := .variant "sign" (.variant "positive" .wildcard)
  leaf := none

theorem typeVariantArm_signArm {sign : String} {sub : RawPattern} {node : JsonValue}
    {leaf : Option (String × Hash)}
    (typed : typePayloadPattern plain neverContext.objects neverContext.root (.variant sign sub)
      typeSign = .ok (node, leaf)) :
    typeVariantArm plain neverContext.objects neverContext.root nestedVariants (signArm sign sub)
      "sha256:body" = .ok ⟨.object [("body", .string "sha256:body"), ("payload_pattern", node),
        ("variant", .string "sign")], .variant "sign" (.variant sign sub), leaf⟩ := by
  have variant : validateProjectionIdentifier "enum variant" "sign" = .ok () := if_pos (by decide)
  refine Except.bind_eq_ok.mpr ⟨"sign", rfl, Except.bind_eq_ok.mpr ⟨(), variant, ?_⟩⟩
  refine Except.bind_eq_ok.mpr ⟨⟨"sign", typeSign⟩, by simp [nestedVariants]; rfl, ?_⟩
  exact Except.bind_eq_ok.mpr ⟨(node, leaf), typed, rfl⟩

theorem typeVariantArm_negative :
    typeVariantArm plain neverContext.objects neverContext.root nestedVariants
      (signArm "negative" (.binding "n")) "sha256:body" = .ok typedNegativeArm := by
  have variant : validateProjectionIdentifier "enum variant" "negative" = .ok () :=
    if_pos (by decide)
  have binding : validateProjectionIdentifier "case binding" "n" = .ok () := if_pos (by decide)
  refine typeVariantArm_signArm ?_
  rw [typePayloadPattern]
  refine Except.bind_eq_ok.mpr ⟨_, typeSpecInRoot_typeSign, Except.bind_eq_ok.mpr ⟨(), variant, ?_⟩⟩
  exact Except.bind_eq_ok.mpr ⟨⟨"negative", typeI64⟩, by simp [signVariants]; rfl,
    Except.bind_eq_ok.mpr ⟨(), binding, rfl⟩⟩

theorem typeVariantArm_positive :
    typeVariantArm plain neverContext.objects neverContext.root nestedVariants
      (signArm "positive" .wildcard) "sha256:body" = .ok typedPositiveArm := by
  have variant : validateProjectionIdentifier "enum variant" "positive" = .ok () :=
    if_pos (by decide)
  refine typeVariantArm_signArm ?_
  rw [typePayloadPattern]
  refine Except.bind_eq_ok.mpr ⟨_, typeSpecInRoot_typeSign, Except.bind_eq_ok.mpr ⟨(), variant, ?_⟩⟩
  exact Except.bind_eq_ok.mpr ⟨⟨"positive", typeI64⟩, by simp [signVariants]; rfl, rfl⟩

/-- The two patterns come together below the variant they share, and apart below its payload. -/
theorem checkPatternsWellFormed_signs :
    checkPatternsWellFormed plain neverContext.objects neverContext.root typeNested
      ([typedNegativeArm, typedPositiveArm].map (·.pattern)) = .ok () := by
  have leaf (type : Hash) (p : RawPattern) (every : p.isCatchAll) : checkPatternsWellFormed plain
      neverContext.objects neverContext.root type [p] = .ok () := by
    rw [checkPatternsWellFormed]
    simp [every]
  have signs : checkPatternsWellFormed plain neverContext.objects neverContext.root typeSign
      [.variant "negative" (.binding "n"), .variant "positive" .wildcard] = .ok () := by
    rw [checkPatternsWellFormed]
    refine Except.bind_eq_ok.mpr ⟨_, typeSpecInRoot_typeSign, Except.forM_eq_ok.mpr ?_⟩
    rw [signVariants, List.forall_mem_cons, List.forall_mem_singleton]
    exact ⟨leaf typeI64 (.binding "n") rfl, leaf typeI64 .wildcard rfl⟩
  rw [checkPatternsWellFormed]
  refine Except.bind_eq_ok.mpr ⟨_, typeSpecInRoot_typeNested, Except.forM_eq_ok.mpr ?_⟩
  rw [nestedVariants, List.forall_mem_singleton]
  exact signs

/-- Below the nested enum there are the signs and their numbers, and all have values. -/
theorem hasValue_of_payloadOf_typeNested {payload : Hash}
    (path : Relation.TransGen (PayloadOf plain neverContext) typeNested payload) :
    HasValue plain neverContext payload := by
  have signs : HasValue plain neverContext typeSign :=
    ⟨#[.int ⟨i64, 0⟩, .enum "negative" 0], 1,
      (hasType_enum_iff typeSpecInRoot_typeSign).mpr ⟨"negative", 0, ⟨"negative", typeI64⟩, rfl,
        by simp [signVariants], .int ⟨i64, 0⟩, 1, rfl, valueHasType_int typeSpecInRoot_typeI64⟩⟩
  suffices payload = typeSign ∨ payload = typeI64 by
    rcases this with rfl | rfl
    · exact signs
    · exact hasValue_typeI64
  induction path with
  | single below =>
    obtain ⟨variants, found, listed⟩ := below
    obtain rfl := TypeSpec.enum.inj (Except.ok.inj (found.symm.trans typeSpecInRoot_typeNested))
    exact Or.inl (List.mem_singleton.mp listed)
  | tail _ below ih =>
    obtain ⟨variants, found, listed⟩ := below
    rcases ih with rfl | rfl
    · obtain rfl := TypeSpec.enum.inj (Except.ok.inj (found.symm.trans typeSpecInRoot_typeSign))
      exact Or.inr (by simpa [signVariants] using listed)
    · cases found.symm.trans typeSpecInRoot_typeI64

/-- A nested enum with an arm for each sign: together they are exhaustive, and no value is
matched by both. -/
theorem patternsExhaustive_iff_typeNested :
    patternsExhaustive plain neverContext.objects neverContext.root typeNested
      ([typedNegativeArm, typedPositiveArm].map (·.pattern)) = .ok true ∧
    (∀ memory cell, HasType plain neverContext memory cell typeNested →
      ArmMatches memory typedNegativeArm.node cell ∨ ArmMatches memory typedPositiveArm.node cell) ∧
    ∀ memory cell, HasType plain neverContext memory cell typeNested →
      ¬ (ArmMatches memory typedNegativeArm.node cell ∧
        ArmMatches memory typedPositiveArm.node cell) := by
  have typed : [(signArm "negative" (.binding "n"), "sha256:body"),
      (signArm "positive" .wildcard, "sha256:body")].mapM (fun arm => typeVariantArm plain
        neverContext.objects neverContext.root nestedVariants arm.1 arm.2) =
      .ok [typedNegativeArm, typedPositiveArm] :=
    Except.mapM_eq_ok.mpr (.cons typeVariantArm_negative (.cons typeVariantArm_positive .nil))
  obtain ⟨sound, complete, apart⟩ := patternsExhaustive_iff typeSpecInRoot_typeNested typed
    checkPatternsWellFormed_signs
  have matched : ∀ memory cell, HasType plain neverContext memory cell typeNested →
      ∃ arm ∈ [typedNegativeArm, typedPositiveArm], ArmMatches memory arm.node cell := by
    intro memory cell value
    obtain ⟨variant, inner, entry, held, listed, value⟩ :=
      (hasType_enum_iff typeSpecInRoot_typeNested).mp value
    have name : entry.name = variant := by simpa using List.find?_some listed
    obtain rfl := List.mem_singleton.mp (List.mem_of_find?_eq_some listed)
    obtain rfl : "sign" = variant := name
    obtain ⟨sign, number, entry, held', listed, -⟩ :=
      (hasType_enum_iff typeSpecInRoot_typeSign).mp value
    have name : entry.name = sign := by simpa using List.find?_some listed
    rcases List.mem_pair.mp (List.mem_of_find?_eq_some listed) with rfl | rfl
    · obtain rfl : "negative" = sign := name
      exact ⟨_, List.mem_cons_self, (armMatches_iff typeVariantArm_negative).mpr
        ⟨inner, held, number, held', trivial⟩⟩
    · obtain rfl : "positive" = sign := name
      exact ⟨_, List.mem_cons_of_mem _ (List.mem_singleton.mpr rfl),
        (armMatches_iff typeVariantArm_positive).mpr ⟨inner, held, number, held', trivial⟩⟩
  have covers := complete (fun _ path => hasValue_of_payloadOf_typeNested path) matched
  refine ⟨covers, fun memory cell value => ?_, List.pairwise_pair.mp apart⟩
  obtain ⟨arm, listed, armMatches⟩ := sound covers memory cell value
  rcases List.mem_pair.mp listed with rfl | rfl
  · exact Or.inl armMatches
  · exact Or.inr armMatches

theorem hasValue_typeEither : HasValue plain neverContext typeEither := by
  refine ⟨#[.int ⟨i64, 0⟩, .enum "some" 0], 1, (hasType_enum_iff typeSpecInRoot_typeEither).mpr ?_⟩
  exact ⟨"some", 0, ⟨"some", typeI64⟩, rfl, by simp [eitherVariants], .int ⟨i64, 0⟩, 1, rfl,
    valueHasType_int typeSpecInRoot_typeI64⟩

/-- The arm of the number matches every value, and is not exhaustive: there still has to be
an arm for what has no values. -/
theorem exists_matches_not_exhaustive : ∃ typed,
    typeSpecInRoot plain neverContext.objects neverContext.root typeEither =
      .ok (.enum eitherVariants) ∧
    [(numberArm, "sha256:body")].mapM (fun arm => typeVariantArm plain neverContext.objects
      neverContext.root eitherVariants arm.1 arm.2) = .ok typed ∧
    checkPatternsWellFormed plain neverContext.objects neverContext.root typeEither
      (typed.map (·.pattern)) = .ok () ∧
    HasValue plain neverContext typeEither ∧
    (∀ memory cell, HasType plain neverContext memory cell typeEither →
      ∃ arm ∈ typed, ArmMatches memory arm.node cell) ∧
    patternsExhaustive plain neverContext.objects neverContext.root typeEither
      (typed.map (·.pattern)) = .ok false := by
  have typing := typeVariantArm_numberArm eitherVariants (by simp [eitherVariants])
  refine ⟨[typedNumberArm], typeSpecInRoot_typeEither, Except.mapM_eq_ok.mpr (.cons typing .nil),
    checkPatternsWellFormed_numberPattern typeSpecInRoot_typeEither, hasValue_typeEither,
    fun memory cell typed => ?_, ?_⟩
  · refine ⟨_, List.mem_singleton.mpr rfl, (armMatches_iff typing).mpr ?_⟩
    obtain ⟨variant, inner, entry, held, listed, payload⟩ :=
      (hasType_enum_iff typeSpecInRoot_typeEither).mp typed
    have name : entry.name = variant := by simpa using List.find?_some listed
    rcases List.mem_pair.mp (List.mem_of_find?_eq_some listed) with rfl | rfl
    · exact absurd payload (not_hasType_typeNever memory inner)
    · obtain rfl : "some" = variant := name
      exact ⟨inner, held, trivial⟩
  · rw [List.map_singleton, patternsExhaustive]
    refine Except.bind_eq_ok.mpr ⟨_, typeSpecInRoot_typeEither,
      Except.allM_cons_eq_ok.mpr (Or.inr ⟨?_, rfl⟩)⟩
    dsimp only
    rw [dif_neg]
    simp [typedNumberArm, subPatterns_numberPattern]

end CodeDb
