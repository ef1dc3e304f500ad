import CodeDb.Language.Lexer
import CodeDb.SelfHosted.Lexer

/-!
# The two lexers agree

The lexer of the language works on characters and the self-hosted one on bytes. At every token
the bytes that are left are those of the characters that are left, so the tokens are the same,
and so is what is folded of each.

## Main results

* `scanEnd_eq` — a scan over bytes stops where the scan over characters does
* `lexString_folds`, `lexByteString_folds` — literals are folded as they are decoded
* `Takes.of_lexStep` — a step of one lexer is a step of the other
* `lexers_agree` — the tokens, what is folded of them and the line that is printed are the same
-/

namespace CodeDb

namespace SelfHosted

namespace Lexer

open Loop (Steps)
open CodeDb.Lexer
open Utf8 (encode)

/-- What is left of a string from a position on are the bytes of some characters. -/
structure At (mem : Buffer) (i : Nat) (chars : List Char) : Prop where
  inside : i ≤ mem.bytes.length
  there : mem.bytes.drop i = encode chars

namespace At

variable {mem : Buffer} {i : Nat} {c : Char} {chars : List Char}

theorem small (here : At mem i chars) : i < 2 ^ 63 :=
  Nat.lt_of_le_of_lt here.inside mem.length_small

/-- After some characters come the others. -/
theorem add (here : At mem i chars) (first rest : List Char) (split : chars = first ++ rest) :
    At mem (i + (encode first).length) rest := by
  have there := here.there
  rw [split, Utf8.encode_append] at there
  have length := congrArg List.length there
  rw [List.length_drop, List.length_append] at length
  have inside := here.inside
  refine ⟨by omega, ?_⟩
  rw [← List.drop_drop, there, List.drop_left]

/-- At a character below 128 is its code, and after it come the others. -/
theorem ascii (here : At mem i (c :: chars)) (ascii : c.toNat < 128) :
    mem.bytes.drop i = UInt8.ofNat c.toNat :: encode chars ∧ At mem (i + 1) chars := by
  have one := Utf8.encodeChar_ascii ascii
  refine ⟨by rw [here.there, Utf8.encode_cons, one]; rfl, ?_⟩
  have next := here.add [c] chars rfl
  rw [Utf8.encode_cons, one] at next
  exact next

/-- After a character come the others. -/
theorem tail (here : At mem i (c :: chars)) : At mem (i + (encode [c]).length) chars :=
  here.add [c] chars rfl

/-- After an escaped character come the others. -/
theorem escaped (here : At mem i ('\\' :: c :: chars)) (ascii : c.toNat < 128) :
    At mem (i + 2) chars :=
  ((here.ascii (by decide)).2.ascii ascii).2

end At

/-! ### Scans -/

section Scans

variable {mem : Buffer}

/-- One step of a scan. -/
theorem scanEnd_step (mode : I64) {i : Nat} (inside : i ≤ mem.bytes.length) :
    scanEnd.step mem mem.len mode { p := BitVec.ofNat 64 i, go := true } =
      pure (match mem.bytes.drop i with
        | byte :: _ =>
          if continues mode (toI64 byte) then { p := BitVec.ofNat 64 (i + 1), go := true }
          else { p := BitVec.ofNat 64 i, go := false }
        | [] => { p := BitVec.ofNat 64 i, go := false }) := by
  rw [scanEnd.step, mem.len_sle inside]
  cases there : mem.bytes.drop i with
  | nil =>
    have done : mem.bytes.length ≤ i := List.drop_eq_nil_iff.mp there
    rw [if_pos (by simpa using done)]
  | cons byte rest =>
    have inside := Buffer.lt_length there
    rw [if_neg (by simpa using inside), Buffer.get_drop there, pure_bind, ofNat_succ]
    simp only
    split <;> rfl

/-- A scan stops after the bytes it goes on through. -/
theorem scan_steps (mode : I64) (l : List UInt8) {i : Nat} (inside : i ≤ mem.bytes.length)
    (there : mem.bytes.drop i = l) :
    Steps (fun a : P2 => a.go) (scanEnd.step mem mem.len mode)
      ((l.takeWhile fun b => continues mode (toI64 b)).length + 1)
      { p := BitVec.ofNat 64 i, go := true }
      { p := BitVec.ofNat 64 (i + (l.takeWhile fun b => continues mode (toI64 b)).length)
        go := false } := by
  induction l generalizing i with
  | nil =>
    have step := scanEnd_step mode inside
    rw [there] at step
    exact .one rfl step
  | cons byte l ih =>
    have step := scanEnd_step mode inside
    have here := Buffer.lt_length there
    rw [there] at step
    simp only at step
    rw [List.takeWhile_cons]
    by_cases more : continues mode (toI64 byte) = true
    · have next : mem.bytes.drop (i + 1) = l := by
        rw [← List.drop_drop, there]
        rfl
      rw [if_pos more] at step ⊢
      rw [List.length_cons, ← Nat.add_assoc, Nat.add_right_comm i]
      exact .head rfl step (ih here next)
    · rw [if_neg more] at step ⊢
      exact .one rfl step

/-- A scan over bytes stops where the scan over characters does. -/
theorem scanEnd_eq {mode : I64} {q : Char → Bool}
    (agrees : Utf8.Agrees (fun b => continues mode (toI64 b)) q) {i : Nat} {chars : List Char}
    (here : At mem i chars) (short : mem.bytes.length < maxEvalLoopIterations) :
    scanEnd mem (BitVec.ofNat 64 i) mem.len mode =
      pure { mem, stop := BitVec.ofNat 64 (i + (encode (chars.takeWhile q)).length) } := by
  have steps := scan_steps mode (encode chars) here.inside here.there
  rw [agrees.takeWhile chars] at steps
  have length := congrArg List.length here.there
  have bounded : (encode (chars.takeWhile q)).length ≤ (encode chars).length := by
    rw [← agrees.takeWhile chars]
    exact (List.takeWhile_sublist _).length_le
  rw [List.length_drop] at length
  rw [scanEnd, loop, steps.loop_eq rfl (by omega)]
  rfl

end Scans

/-! ### Classes of characters -/

section Classes

/-- A byte from 128 on belongs to no class of ASCII characters. -/
theorem high_bytes {p : UInt8 → Bool} (none : ∀ n < 256, 128 ≤ n → p (UInt8.ofNat n) = false)
    (b : UInt8) (beyond : 128 ≤ b.toNat) : p b = false := by
  rw [← UInt8.ofNat_toNat (x := b)]
  exact none _ b.toNat_lt beyond

/-- A character in a range that ends below 128 is below 128. -/
theorem range_ascii {c d : Char} (low : d.toNat < 128) (below : c ≤ d) : c.toNat < 128 := by
  rw [Char.le_def, UInt32.le_iff_toNat_le] at below
  exact Nat.lt_of_le_of_lt below low

theorem isDigit_ascii {c : Char} (digit : c.isDigit = true) : c.toNat < 128 := by
  rw [Char.isDigit_iff_toNat] at digit
  exact Nat.lt_of_le_of_lt digit.2 (by decide)

theorem isAlpha_ascii {c : Char} (letter : c.isAlpha = true) : c.toNat < 128 := by
  rcases Bool.or_eq_true_iff.mp letter with upper | lower
  · have below : c.val ≤ 'Z'.val := (of_decide_eq_true upper).2
    exact Nat.lt_of_le_of_lt (UInt32.le_iff_toNat_le.mp below) (by decide)
  · have below : c.val ≤ 'z'.val := of_decide_eq_true (Bool.and_eq_true_iff.mp lower).2
    exact Nat.lt_of_le_of_lt (UInt32.le_iff_toNat_le.mp below) (by decide)

theorem startsIdent_ascii {c : Char} (starts : startsIdent c = true) : c.toNat < 128 := by
  rw [startsIdent, Bool.or_eq_true, beq_iff_eq] at starts
  rcases starts with letter | rfl
  · exact isAlpha_ascii letter
  · decide

theorem continuesIdent_ascii {c : Char} (part : continuesIdent c = true) : c.toNat < 128 := by
  rw [continuesIdent, Char.isAlphanum, Bool.or_eq_true, Bool.or_eq_true, beq_iff_eq] at part
  rcases part with (letter | digit) | rfl
  · exact isAlpha_ascii letter
  · exact isDigit_ascii digit
  · decide

theorem isAsciiHexdigit_ascii {c : Char} (digit : isAsciiHexdigit c = true) : c.toNat < 128 := by
  rw [isAsciiHexdigit, Bool.or_eq_true, Bool.or_eq_true, Bool.and_eq_true, Bool.and_eq_true,
    decide_eq_true_eq, decide_eq_true_eq, decide_eq_true_eq, decide_eq_true_eq] at digit
  rcases digit with (digit | ⟨-, below⟩) | ⟨-, below⟩
  · exact isDigit_ascii digit
  · exact range_ascii (by decide) below
  · exact range_ascii (by decide) below

/-- A class of ASCII characters is the class of their bytes. -/
theorem agrees_class {p : UInt8 → Bool} {q : Char → Bool}
    (same : ∀ n < 128, p (UInt8.ofNat n) = q (Char.ofNat n))
    (none : ∀ n < 256, 128 ≤ n → p (UInt8.ofNat n) = false)
    (ascii : ∀ {c}, q c = true → c.toNat < 128) : Utf8.Agrees p q := by
  refine .of_ascii same (fun c beyond => ?_) (high_bytes none)
  by_contra holds
  have low := ascii (Bool.of_not_eq_false holds)
  omega

theorem agrees_ident : Utf8.Agrees (fun b => continues 0 (toI64 b)) continuesIdent :=
  agrees_class (by decide) (by decide +kernel) continuesIdent_ascii

theorem agrees_digit : Utf8.Agrees (fun b => continues 1 (toI64 b)) Char.isDigit :=
  agrees_class (by decide) (by decide +kernel) isDigit_ascii

theorem agrees_hex : Utf8.Agrees (fun b => continues 2 (toI64 b)) isAsciiHexdigit :=
  agrees_class (by decide) (by decide +kernel) isAsciiHexdigit_ascii

/-- A comment goes on to the end of the line. -/
theorem agrees_comment : Utf8.Agrees (fun b => continues 3 (toI64 b)) (· != '\n') where
  through c other b part := by
    change (toI64 b != toI64 10) = true
    rw [bne_iff_ne]
    intro same
    obtain rfl := toI64_injective same
    have listed : 10 ∈ encode [c] := by simpa [encode] using part
    obtain rfl : '\n' = c := List.mem_singleton.mp (Utf8.mem_encode (by decide) listed)
    contradiction
  stops c same := by
    obtain rfl : c = '\n' := by simpa using same
    exact ⟨10, [], by decide, by decide⟩

end Classes

/-! ### Digests -/

section Digest

variable {δ : Type} (fold : δ → I64 → δ) {mem : Buffer}

/-- Fold bytes into a digest. -/
def foldAll (h : δ) (bytes : List UInt8) : δ := bytes.foldl (fun h b => fold h (toI64 b)) h

theorem foldAll_append (h : δ) (l l' : List UInt8) :
    foldAll fold h (l ++ l') = foldAll fold (foldAll fold h l) l' := List.foldl_append

/-- The bytes of a range are folded. -/
theorem foldBytes_eq (h : δ) {ts n : Nat} (inside : ts + n ≤ mem.bytes.length)
    (few : n ≤ maxEvalLoopIterations) :
    foldBytes fold mem (BitVec.ofNat 64 ts) (BitVec.ofNat 64 (ts + n)) h =
      pure { mem, hash := foldAll fold h ((mem.bytes.drop ts).take n) } := by
  have small := mem.length_small
  let along (k : Nat) : P2h δ :=
    { h := foldAll fold h ((mem.bytes.drop ts).take k), j := BitVec.ofNat 64 (ts + k) }
  have more (k : Nat) (hk : k ≤ n) :
      (along k).j.slt (BitVec.ofNat 64 (ts + n)) = decide (k < n) := by
    rw [slt_ofNat (by omega) (by omega)]
    exact decide_eq_decide.mpr (by omega)
  have there (k : Nat) (hk : k < n) : ∃ byte rest, mem.bytes.drop (ts + k) = byte :: rest :=
    List.exists_cons_of_ne_nil (by rw [ne_eq, List.drop_eq_nil_iff]; omega)
  have step (k : Nat) (hk : k < n) :
      (do return { h := fold (along k).h (toI64 (← mem.get (along k).j)), j := (along k).j + 1 } :
        Run (P2h δ)) = pure (along (k + 1)) := by
    obtain ⟨byte, rest, there⟩ := there k hk
    have grown : (mem.bytes.drop ts).take (k + 1) = (mem.bytes.drop ts).take k ++ [byte] := by
      rw [List.take_add_one, ← List.head?_drop, List.drop_drop, there]
      rfl
    simp only [along, Buffer.get_drop there, pure_bind, ofNat_succ, grown, foldAll_append]
    rfl
  rw [foldBytes, loop]
  change Loop.loop _ _ _ _ (along 0) >>= _ = _
  rw [Loop.loop_along along n (fun k hk => by rw [more k (Nat.le_of_lt hk), decide_eq_true hk]) step
    (by rw [more n (Nat.le_refl n), decide_eq_false (Nat.lt_irrefl n)]) few]
  rfl

/-! ### Literals -/

/-- A byte that is neither a quote nor a backslash is folded as it is. -/
theorem strlit_plain {isByte : Bool} (h : δ) {i : Nat} {byte : UInt8} {rest : List UInt8}
    (there : mem.bytes.drop i = byte :: rest) (quote : byte ≠ 34) (backslash : byte ≠ 92) :
    foldStrlit.step fold mem mem.len isByte { h, p := BitVec.ofNat 64 i, go := true } =
      pure { h := fold h (toI64 byte), p := BitVec.ofNat 64 (i + 1), go := true } := by
  have inside := Buffer.lt_length there
  have quote : (toI64 byte == 34) = false := toI64_beq quote
  have backslash : (toI64 byte == 92) = false := toI64_beq backslash
  rw [foldStrlit.step, mem.len_sle (Nat.le_of_lt inside), if_neg (by simpa using inside),
    Buffer.get_drop there, pure_bind, ofNat_succ]
  simp only [quote, backslash, Bool.false_and]
  rfl

/-- A quote ends a literal. -/
theorem strlit_quote {isByte : Bool} (h : δ) {i : Nat} {rest : List UInt8}
    (there : mem.bytes.drop i = 34 :: rest) :
    foldStrlit.step fold mem mem.len isByte { h, p := BitVec.ofNat 64 i, go := true } =
      pure { h, p := BitVec.ofNat 64 (i + 1), go := false } := by
  have inside := Buffer.lt_length there
  rw [foldStrlit.step, mem.len_sle (Nat.le_of_lt inside), if_neg (by simpa using inside),
    Buffer.get_drop there, pure_bind, ofNat_succ]
  rfl

/-- A position is before the end if something follows. -/
theorem slt_len {i : Nat} {byte : UInt8} {rest : List UInt8}
    (there : mem.bytes.drop i = byte :: rest) : (BitVec.ofNat 64 i).slt mem.len = true := by
  have inside := Buffer.lt_length there
  have small := mem.length_small
  rw [Buffer.len, slt_ofNat (by omega) small, decide_eq_true inside]

/-- An escaped character is folded as it is decoded. -/
theorem strlit_escape (isByte : Bool) (h : δ) {i : Nat} {e : UInt8} {rest : List UInt8}
    (there : mem.bytes.drop i = 92 :: e :: rest) (known : e ≠ 120) :
    foldStrlit.step fold mem mem.len isByte { h, p := BitVec.ofNat 64 i, go := true } =
      pure { h := fold h (decodeEscape (toI64 e)), p := BitVec.ofNat 64 (i + 2), go := true } := by
  have inside := Buffer.lt_length there
  have next : mem.bytes.drop (i + 1) = e :: rest := by
    rw [← List.drop_drop, there]
    rfl
  have plain : (toI64 e == 120) = false := toI64_beq known
  have after : BitVec.ofNat 64 i + 2 = BitVec.ofNat 64 (i + 2) := (BitVec.ofNat_add i 2).symm
  rw [foldStrlit.step, mem.len_sle (Nat.le_of_lt inside), if_neg (by simpa using inside),
    Buffer.get_drop there, pure_bind]
  simp only [ofNat_succ, slt_len next, Buffer.get_drop next, pure_bind, plain, after]
  rfl

/-- Two hexadecimal digits of a byte string are folded as their value. -/
theorem strlit_hex (h : δ) {i : Nat} {hi lo : UInt8} {rest : List UInt8}
    (there : mem.bytes.drop i = 92 :: 120 :: hi :: lo :: rest) :
    foldStrlit.step fold mem mem.len true { h, p := BitVec.ofNat 64 i, go := true } =
      pure { h := fold h (sal (hexv (toI64 hi)) 4 ||| hexv (toI64 lo))
             p := BitVec.ofNat 64 (i + 4), go := true } := by
  have inside := Buffer.lt_length there
  have later (k : Nat) (l : List UInt8) (tail : (92 :: 120 :: hi :: lo :: rest).drop k = l) :
      mem.bytes.drop (i + k) = l := by
    rw [← List.drop_drop, there, tail]
  have next := later 1 _ rfl
  have digit := later 2 _ rfl
  have last := later 3 _ rfl
  have after (k : Nat) : BitVec.ofNat 64 i + BitVec.ofNat 64 k = BitVec.ofNat 64 (i + k) :=
    (BitVec.ofNat_add i k).symm
  have after₂ : BitVec.ofNat 64 i + 2 = BitVec.ofNat 64 (i + 2) := after 2
  have after₃ : BitVec.ofNat 64 i + 3 = BitVec.ofNat 64 (i + 3) := after 3
  have after₄ : BitVec.ofNat 64 i + 4 = BitVec.ofNat 64 (i + 4) := after 4
  rw [foldStrlit.step, mem.len_sle (Nat.le_of_lt inside), if_neg (by simpa using inside),
    Buffer.get_drop there, pure_bind]
  simp only [ofNat_succ, slt_len next, Buffer.get_drop next, pure_bind, after₂, after₃, after₄,
    slt_len last, Buffer.get_drop digit, Buffer.get_drop last]
  rfl

/-- The bytes of a character that is neither a quote nor a backslash are folded as they are. -/
theorem plain_steps {isByte : Bool} (h : δ) {i : Nat} (l : List UInt8) {rest : List UInt8}
    (there : mem.bytes.drop i = l ++ rest) (plain : ∀ b ∈ l, b ≠ 34 ∧ b ≠ 92) :
    Steps (fun a : StrAcc δ => a.go) (foldStrlit.step fold mem mem.len isByte) l.length
      { h, p := BitVec.ofNat 64 i, go := true }
      { h := foldAll fold h l, p := BitVec.ofNat 64 (i + l.length), go := true } := by
  induction l generalizing i h with
  | nil => exact .refl _
  | cons byte l ih =>
    have next : mem.bytes.drop (i + 1) = l ++ rest := by
      rw [← List.drop_drop, there]
      rfl
    obtain ⟨quote, backslash⟩ := plain byte List.mem_cons_self
    have tail := ih (fold h (toI64 byte)) next fun b listed =>
      plain b (List.mem_cons_of_mem _ listed)
    rw [Nat.add_right_comm, Nat.add_assoc] at tail
    exact .head rfl (strlit_plain fold h there quote backslash) tail

/-- A character that is neither a quote nor a backslash has neither among its bytes. -/
theorem plain_bytes {c : Char} (quote : c ≠ '"') (backslash : c ≠ '\\') :
    ∀ b ∈ encode [c], b ≠ 34 ∧ b ≠ 92 := by
  intro b part
  constructor
  · rintro rfl
    exact quote (List.mem_singleton.mp (Utf8.mem_encode (by decide) part)).symm
  · rintro rfl
    exact backslash (List.mem_singleton.mp (Utf8.mem_encode (by decide) part)).symm

/-- From a position in a literal on bytes are folded up to its end, after which some characters
are left. -/
def Folds (mem : Buffer) (isByte : Bool) (i : Nat) (rest : List Char) (bytes : List UInt8) : Prop :=
  ∀ h, ∃ j n, At mem j rest ∧ i + n ≤ j ∧
    Steps (fun a : StrAcc δ => a.go) (foldStrlit.step fold mem mem.len isByte) n
      { h, p := BitVec.ofNat 64 i, go := true }
      { h := foldAll fold h bytes, p := BitVec.ofNat 64 j, go := false }

namespace Folds

variable {fold} {isByte : Bool} {i : Nat} {c : Char} {chars rest : List Char} {bytes : List UInt8}

/-- At the closing quote nothing more is folded. -/
theorem quote (here : At mem i ('"' :: rest)) : Folds fold mem isByte i rest [] := by
  intro h
  obtain ⟨there, next⟩ := here.ascii (by decide)
  exact ⟨i + 1, 1, next, Nat.le_refl _, .one rfl (strlit_quote fold h there)⟩

/-- Some steps fold bytes, and then come the others. -/
theorem head {k i' : Nat} {l : List UInt8}
    (first : ∀ h, Steps (fun a : StrAcc δ => a.go) (foldStrlit.step fold mem mem.len isByte) k
      { h, p := BitVec.ofNat 64 i, go := true }
      { h := foldAll fold h l, p := BitVec.ofNat 64 i', go := true }) (far : i + k ≤ i')
    (tail : Folds fold mem isByte i' rest bytes) : Folds fold mem isByte i rest (l ++ bytes) := by
  intro h
  obtain ⟨j, n, left, further, steps⟩ := tail (foldAll fold h l)
  refine ⟨j, k + n, left, by omega, ?_⟩
  rw [foldAll_append]
  exact (first h).trans steps

/-- A character is folded as it is. -/
theorem plain (here : At mem i (c :: chars)) (quote : c ≠ '"') (backslash : c ≠ '\\')
    (tail : Folds fold mem isByte (i + (encode [c]).length) rest bytes) :
    Folds fold mem isByte i rest (encode [c] ++ bytes) := by
  have there : mem.bytes.drop i = encode [c] ++ encode chars := by
    rw [← Utf8.encode_append]
    exact here.there
  exact head (fun h => plain_steps fold h _ there (plain_bytes quote backslash)) (Nat.le_refl _)
    tail

/-- An escaped character is folded as it is decoded. -/
theorem escape {b : UInt8} (here : At mem i ('\\' :: c :: chars)) (ascii : c.toNat < 128)
    (known : c ≠ 'x') (decoded : decodeEscape (toI64 (UInt8.ofNat c.toNat)) = toI64 b)
    (tail : Folds fold mem isByte (i + 2) rest bytes) :
    Folds fold mem isByte i rest (b :: bytes) := by
  obtain ⟨there, -⟩ := here.ascii (by decide)
  have other : UInt8.ofNat c.toNat ≠ 120 := by
    intro same
    apply known
    have same := congrArg UInt8.toNat same
    rw [UInt8.toNat_ofNat_of_lt' (Nat.lt_trans ascii (by decide))] at same
    exact Char.toNat_inj.mp same
  have bytes : mem.bytes.drop i = 92 :: UInt8.ofNat c.toNat :: encode chars := by
    rw [there, Utf8.encode_cons, Utf8.encodeChar_ascii ascii]
    rfl
  refine head (l := [b]) (k := 1) (fun h => ?_) (Nat.le_succ _) tail
  have step := strlit_escape fold isByte h bytes other
  rw [decoded] at step
  exact .one rfl step

end Folds

/-- A string literal is folded as it is decoded. -/
theorem lexString_folds {value result chars rest : List Char} {i : Nat}
    (lexed : lexString value chars = .ok (result, rest)) (here : At mem i chars) :
    ∃ added, result = value ++ added ∧ Folds fold mem false i rest (encode added) := by
  have bytes (c : Char) (added : List Char) (ascii : c.toNat < 128) :
      encode (c :: added) = UInt8.ofNat c.toNat :: encode added := by
    rw [Utf8.encode_cons, Utf8.encodeChar_ascii ascii]
    rfl
  fun_induction lexString value chars generalizing i with
  | case1 => cases lexed
  | case2 value rest' =>
    cases lexed
    exact ⟨[], by simp, .quote here⟩
  | case3 value c _ escaped rest' backslash known ih =>
    obtain rfl : c = '\\' := by simpa using backslash
    rw [Bool.or_eq_true, decide_eq_true_eq, decide_eq_true_eq] at known
    have ascii : escaped.toNat < 128 := by rcases known with rfl | rfl <;> decide
    obtain ⟨added, rfl, folds⟩ := ih lexed (here.escaped ascii)
    refine ⟨escaped :: added, by simp, ?_⟩
    rw [bytes _ _ ascii]
    exact .escape here ascii (by rcases known with rfl | rfl <;> decide)
      (by rcases known with rfl | rfl <;> decide) folds
  | case4 value c _ rest' backslash _ ih =>
    obtain rfl : c = '\\' := by simpa using backslash
    obtain ⟨added, rfl, folds⟩ := ih lexed (here.escaped (by decide))
    refine ⟨'\n' :: added, by simp, ?_⟩
    rw [bytes _ _ (by decide)]
    exact .escape here (by decide) (by decide) (by decide) folds
  | case5 value c _ rest' backslash _ _ ih =>
    obtain rfl : c = '\\' := by simpa using backslash
    obtain ⟨added, rfl, folds⟩ := ih lexed (here.escaped (by decide))
    refine ⟨'\t' :: added, by simp, ?_⟩
    rw [bytes _ _ (by decide)]
    exact .escape here (by decide) (by decide) (by decide) folds
  | case6 => cases lexed
  | case7 value c quote rest' single ih =>
    obtain ⟨added, rfl, folds⟩ := ih lexed here.tail
    refine ⟨c :: added, by simp, ?_⟩
    -- a backslash at the end would leave the literal open
    have backslash : c ≠ '\\' := by
      rintro rfl
      cases rest' with
      | nil => cases lexed
      | cons e rest' => exact single e rest' rfl rfl
    have split : encode (c :: added) = encode [c] ++ encode added := Utf8.encode_append [c] added
    rw [split]
    exact .plain here quote backslash folds

/-- A hexadecimal digit is ASCII, and both lexers give it the same value. -/
theorem hexv_eq {c : Char} {v : UInt8} (value : projectionHexValue c = .ok v) :
    c.toNat < 128 ∧ v.toNat < 16 ∧ hexv (toI64 (UInt8.ofNat c.toNat)) = toI64 v := by
  have ascii : c.toNat < 128 := by
    by_contra beyond
    have above (d : Char) (low : d.toNat < 128) : ¬ c ≤ d := by
      intro below
      rw [Char.le_def, UInt32.le_iff_toNat_le] at below
      exact beyond (Nat.lt_of_le_of_lt below low)
    rw [projectionHexValue, if_neg (by simp [above '9' (by decide)]),
      if_neg (by simp [above 'f' (by decide)]), if_neg (by simp [above 'F' (by decide)])] at value
    cases value
  have all : ∀ n < 128, (match projectionHexValue (Char.ofNat n) with
      | .ok v => decide (v.toNat < 16) && hexv (toI64 (UInt8.ofNat n)) == toI64 v
      | .error _ => true) = true := by decide
  have same := all _ ascii
  rw [Char.ofNat_toNat, value] at same
  simp only [Bool.and_eq_true, decide_eq_true_eq, beq_iff_eq] at same
  exact ⟨ascii, same⟩

/-- The value of two hexadecimal digits. -/
theorem sal_or {v w : UInt8} (hv : v.toNat < 16) (hw : w.toNat < 16) :
    sal (toI64 v) 4 ||| toI64 w = toI64 (v <<< 4 ||| w) := by
  have all : ∀ m < 16, ∀ n < 16, sal (toI64 (UInt8.ofNat m)) 4 ||| toI64 (UInt8.ofNat n) =
      toI64 (UInt8.ofNat m <<< 4 ||| UInt8.ofNat n) := by decide
  have same := all _ hv _ hw
  rwa [UInt8.ofNat_toNat, UInt8.ofNat_toNat] at same

/-- A byte string literal is folded as it is decoded. -/
theorem lexByteString_folds {value result : List UInt8} {chars rest : List Char} {i : Nat}
    (lexed : lexByteString value chars = .ok (result, rest)) (here : At mem i chars) :
    ∃ added, result = value ++ added ∧ Folds fold mem true i rest added := by
  -- an escaped character that stands for a byte
  have escape {value : List UInt8} {c e : Char} {rest' : List Char} {i : Nat} (b : UInt8)
      (backslash : (c == '\\') = true) (here : At mem i (c :: e :: rest'))
      (ascii : e.toNat < 128) (known : e ≠ 'x')
      (decoded : decodeEscape (toI64 (UInt8.ofNat e.toNat)) = toI64 b)
      (ih : ∀ {j}, At mem j rest' →
        ∃ added, result = value ++ [b] ++ added ∧ Folds fold mem true j rest added) :
      ∃ added, result = value ++ added ∧ Folds fold mem true i rest added := by
    obtain rfl : c = '\\' := by simpa using backslash
    obtain ⟨added, rfl, folds⟩ := ih (here.escaped ascii)
    exact ⟨b :: added, by simp, .escape here ascii known decoded folds⟩
  fun_induction lexByteString value chars generalizing i with
  | case1 => cases lexed
  | case2 value rest' =>
    cases lexed
    exact ⟨[], by simp, .quote here⟩
  | case3 value c _ rest' backslash ih =>
    exact escape 0x22 backslash here (by decide) (by decide) (by decide) (ih lexed)
  | case4 value c _ rest' backslash _ ih =>
    exact escape 0x5c backslash here (by decide) (by decide) (by decide) (ih lexed)
  | case5 value c _ rest' backslash _ _ ih =>
    exact escape 0x0a backslash here (by decide) (by decide) (by decide) (ih lexed)
  | case6 value c _ rest' backslash _ _ _ ih =>
    exact escape 0x09 backslash here (by decide) (by decide) (by decide) (ih lexed)
  | case7 value c _ rest' backslash _ _ _ _ ih =>
    exact escape 0 backslash here (by decide) (by decide) (by decide) (ih lexed)
  | case8 value c _ escaped backslash _ _ _ _ _ hi lo rest' hex ih =>
    obtain rfl : c = '\\' := by simpa using backslash
    obtain rfl : escaped = 'x' := by simpa using hex
    obtain ⟨high, highDigit, lexed⟩ := Except.bind_eq_ok.mp lexed
    obtain ⟨low, lowDigit, lexed⟩ := Except.bind_eq_ok.mp lexed
    obtain ⟨asciiHigh, smallHigh, valueHigh⟩ := hexv_eq highDigit
    obtain ⟨asciiLow, smallLow, valueLow⟩ := hexv_eq lowDigit
    have one : encode ('\\' :: 'x' :: hi :: lo :: rest') =
        92 :: 120 :: UInt8.ofNat hi.toNat :: UInt8.ofNat lo.toNat :: encode rest' := by
      simp only [Utf8.encode_cons, Utf8.encodeChar_ascii asciiHigh, Utf8.encodeChar_ascii asciiLow]
      rfl
    have left : At mem (i + 4) rest' :=
      (((here.ascii (by decide)).2.ascii (by decide)).2.ascii asciiHigh).2.ascii asciiLow |>.2
    obtain ⟨added, rfl, folds⟩ := ih high low lexed left
    refine ⟨(high <<< 4 ||| low) :: added, by simp, ?_⟩
    have first (h : δ) := strlit_hex fold h (here.there.trans one)
    rw [valueHigh, valueLow, sal_or smallHigh smallLow] at first
    exact Folds.head (k := 1) (l := [high <<< 4 ||| low]) (fun h => .one rfl (first h)) (by omega)
      folds
  | case9 => cases lexed
  | case10 => cases lexed
  | case11 value c quote rest' ascii single ih =>
    obtain ⟨added, rfl, folds⟩ := ih lexed here.tail
    have backslash : c ≠ '\\' := by
      rintro rfl
      cases rest' with
      | nil => cases lexed
      | cons e rest' => exact single e rest' rfl rfl
    have one : encode [c] = [UInt8.ofNat c.toNat] := by
      rw [Utf8.encode_cons, Utf8.encodeChar_ascii ascii]
      rfl
    refine ⟨UInt8.ofNat c.toNat :: added, by simp, ?_⟩
    have folded := Folds.plain here quote backslash folds
    rwa [one] at folded
  | case12 => cases lexed

/-- A literal is folded, and after it come some characters. -/
theorem foldStrlit_eq {isByte : Bool} {i : Nat} {rest : List Char} {bytes : List UInt8}
    (folds : Folds fold mem isByte i rest bytes) (short : mem.bytes.length < maxEvalLoopIterations)
    (h : δ) :
    ∃ j, At mem j rest ∧ i ≤ j ∧
      foldStrlit fold mem (BitVec.ofNat 64 i) mem.len h isByte =
        pure { mem, hash := foldAll fold h bytes, next := BitVec.ofNat 64 j } := by
  obtain ⟨j, n, left, far, steps⟩ := folds h
  have inside := left.inside
  refine ⟨j, left, by omega, ?_⟩
  rw [foldStrlit, loop, steps.loop_eq rfl (by omega)]
  rfl

/-! ### Tokens -/

/-- The byte that some characters start with, or zero at the end. -/
def peek (chars : List Char) : I64 :=
  match encode chars with
  | byte :: _ => toI64 byte
  | [] => 0

/-- The byte of a character. -/
def byteOf (c : Char) : I64 := toI64 (UInt8.ofNat c.toNat)

theorem byteOf_beq {c d : Char} (hc : c.toNat < 128) (hd : d.toNat < 128) :
    (byteOf c == byteOf d) = decide (c = d) := by
  by_cases same : c = d
  · simp [same]
  · rw [decide_eq_false same]
    apply toI64_beq
    intro bytes
    have bytes := congrArg UInt8.toNat bytes
    rw [UInt8.toNat_ofNat_of_lt' (Nat.lt_trans hc (by decide)),
      UInt8.toNat_ofNat_of_lt' (Nat.lt_trans hd (by decide))] at bytes
    exact same (Char.toNat_inj.mp bytes)

/-- The byte of an ASCII character is only there if the character is. -/
theorem peek_beq (chars : List Char) {d : Char} (ascii : d.toNat < 128) (some : 0 < d.toNat) :
    (peek chars == byteOf d) = decide (chars.head? = Option.some d) := by
  cases chars with
  | nil =>
    have zero : (peek [] == byteOf d) = false := by
      apply toI64_beq (a := 0)
      intro same
      have same := congrArg UInt8.toNat same
      rw [UInt8.toNat_ofNat_of_lt' (Nat.lt_trans ascii (by decide))] at same
      exact absurd same (Nat.ne_of_lt some)
    rw [zero]
    rfl
  | cons c chars =>
    rw [List.head?_cons]
    simp only [Option.some.injEq]
    by_cases low : c.toNat < 128
    · rw [← byteOf_beq low ascii, peek, Utf8.encode_cons, Utf8.encodeChar_ascii low]
      rfl
    · obtain ⟨b, rest, encoded⟩ :=
        List.exists_cons_of_ne_nil (String.utf8EncodeChar_ne_nil (c := c))
      have high : 128 ≤ b.toNat := Utf8.high (Nat.le_of_not_lt low) (by simp [encoded])
      have other : c ≠ d := by
        rintro rfl
        exact low ascii
      rw [decide_eq_false other, peek, Utf8.encode_cons, encoded]
      apply toI64_beq
      rintro rfl
      rw [UInt8.toNat_ofNat_of_lt' (Nat.lt_trans ascii (by decide))] at high
      omega

/-- Two characters are a symbol for both lexers. -/
theorem isTwoChar_eq {c : Char} {rest : List Char} (ascii : c.toNat < 128) :
    isTwoChar (byteOf c) (peek rest) = rest.head?.any fun d => (c, d) ∈ twoCharSymbols := by
  have pair (d e : Char) (hd : d.toNat < 128) (he : e.toNat < 128) (some : 0 < e.toNat) :
      (byteOf c == byteOf d && peek rest == byteOf e) =
        decide (c = d ∧ rest.head? = Option.some e) := by
    rw [byteOf_beq ascii hd, peek_beq _ he some, Bool.decide_and]
  change (byteOf c == byteOf '-' && peek rest == byteOf '>' ||
    byteOf c == byteOf '=' && peek rest == byteOf '=' ||
    byteOf c == byteOf '!' && peek rest == byteOf '=' ||
    byteOf c == byteOf '<' && peek rest == byteOf '=' ||
    byteOf c == byteOf '>' && peek rest == byteOf '=' ||
    byteOf c == byteOf '&' && peek rest == byteOf '&' ||
    byteOf c == byteOf '|' && peek rest == byteOf '|' ||
    byteOf c == byteOf ':' && peek rest == byteOf ':' ||
    byteOf c == byteOf '=' && peek rest == byteOf '>' ||
    byteOf c == byteOf '.' && peek rest == byteOf '.') = _
  simp (disch := decide) only [pair, ← Bool.decide_or]
  cases rest with
  | nil => simp
  | cons d rest => simp [twoCharSymbols, or_assoc]

/-- A step takes a token or skips white space. -/
def Takes (mem : Buffer) (i : Nat) (token : Option Token) (rest : List Char) : Prop :=
  ∀ count h, ∃ j, At mem j rest ∧ i < j ∧
    step fold mem (BitVec.ofNat 64 i) count h mem.len =
      pure { mem, i := BitVec.ofNat 64 j, count := count + BitVec.ofNat 64 token.toList.length
             hash := foldAll fold h (token.toList.flatMap Token.folded) }

namespace Takes

variable {fold} {i : Nat} {c : Char} {rest rest' : List Char}

/-- A step looks at the byte of a character and at the one after it. -/
theorem step_reads (here : At mem i (c :: rest)) (ascii : c.toNat < 128) (count : I64) (h : δ) :
    step fold mem (BitVec.ofNat 64 i) count h mem.len =
      step.emit fold mem (BitVec.ofNat 64 i) count h mem.len (byteOf c) (peek rest) := by
  obtain ⟨there, next⟩ := here.ascii ascii
  have rest_there := next.there
  rw [step, Buffer.get_drop there, pure_bind, ofNat_succ]
  cases bytes : encode rest with
  | nil =>
    rw [bytes, List.drop_eq_nil_iff] at rest_there
    have small := mem.length_small
    have last : (BitVec.ofNat 64 (i + 1)).slt mem.len = false := by
      rw [Buffer.len, slt_ofNat next.small small, decide_eq_false (by omega)]
    rw [peek, bytes]
    simp only [last]
    rfl
  | cons byte tail =>
    rw [bytes] at rest_there
    rw [peek, bytes]
    simp only [slt_len rest_there, Buffer.get_drop rest_there]
    rfl

/-- White space is skipped. -/
theorem white (here : At mem i (c :: rest)) (ascii : c.toNat < 128)
    (space : isWhitespace c = true) : Takes fold mem i none rest := by
  intro count h
  have same : isWs (byteOf c) = isWhitespace c :=
    Utf8.ascii_all (P := fun c => isWs (byteOf c) = isWhitespace c) (by decide) ascii
  refine ⟨i + 1, (here.ascii ascii).2, Nat.lt_succ_self _, ?_⟩
  rw [step_reads here ascii, step.emit, if_pos (same.trans space), ofNat_succ]
  simp [foldAll]

/-- A byte string literal is folded over its decoded bytes. -/
theorem byteString {bytes : List UInt8} (here : At mem i ('b' :: '"' :: rest))
    (folds : Folds fold mem true (i + 2) rest' bytes)
    (short : mem.bytes.length < maxEvalLoopIterations) :
    Takes fold mem i (some (.byteString bytes)) rest' := by
  intro count h
  obtain ⟨j, left, far, folded⟩ := foldStrlit_eq fold folds short (fold h 4)
  have after : BitVec.ofNat 64 i + 2 = BitVec.ofNat 64 (i + 2) := (BitVec.ofNat_add i 2).symm
  have next : (peek ('"' :: rest) == 34) = true := peek_beq _ (d := '"') (by decide) (by decide)
  refine ⟨j, left, by omega, ?_⟩
  rw [step_reads here (by decide), step.emit, if_neg (by decide),
    if_pos (by rw [next]; decide), after]
  simp only [folded, pure_bind]
  simp [foldAll, Token.folded, Token.kindAndText, toI64]

/-- A string literal is folded over its decoded characters. -/
theorem string {value : List Char} (here : At mem i ('"' :: rest))
    (folds : Folds fold mem false (i + 1) rest' (encode value))
    (short : mem.bytes.length < maxEvalLoopIterations) :
    Takes fold mem i (some (.string value)) rest' := by
  intro count h
  obtain ⟨j, left, far, folded⟩ := foldStrlit_eq fold folds short (fold h 3)
  refine ⟨j, left, by omega, ?_⟩
  have notBytes : (byteOf '"' == 98 && peek rest == 34) = false := by
    rw [show (byteOf '"' == 98) = false by decide, Bool.false_and]
  rw [step_reads here (by decide), step.emit, if_neg (by decide), notBytes, if_neg (by decide),
    if_pos (by decide), ofNat_succ]
  simp only [folded, pure_bind]
  simp [foldAll, Token.folded, Token.kindAndText, utf8_ofList, toI64]

/-- Another token is folded over its text, which may start after its first characters. -/
theorem text (ts : Nat) (kind : UInt8) {taken : List Char} {token : Token}
    (here : At mem i (c :: rest)) (ascii : c.toNat < 128) (space : isWhitespace c = false)
    (byteString : ¬ (c = 'b' ∧ rest.head? = some '"')) (quote : c ≠ '"')
    (start : At mem ts (taken ++ rest')) (far : i < ts + (encode taken).length)
    (classified : classify mem (BitVec.ofNat 64 i) (byteOf c) (peek rest) mem.len =
      pure { mem, ts := BitVec.ofNat 64 ts, te := BitVec.ofNat 64 (ts + (encode taken).length)
             kind := toI64 kind, next := BitVec.ofNat 64 (ts + (encode taken).length) })
    (kindAndText : token.kindAndText = (kind, encode taken))
    (short : mem.bytes.length < maxEvalLoopIterations) :
    Takes fold mem i (some token) rest' := by
  intro count h
  have left := start.add _ _ rfl
  have inside := left.inside
  have notSpace : isWs (byteOf c) = false := by
    rw [← space]
    exact Utf8.ascii_all (P := fun c => isWs (byteOf c) = isWhitespace c) (by decide) ascii
  have notBytes : (byteOf c == 98 && peek rest == 34) = false := by
    have first := byteOf_beq (d := 'b') ascii (by decide)
    have second := peek_beq rest (d := '"') (by decide) (by decide)
    rw [← Bool.not_eq_true, Bool.and_eq_true]
    rintro ⟨isB, isQuote⟩
    exact byteString ⟨by simpa using first.symm.trans isB, by simpa using second.symm.trans isQuote⟩
  have notQuote : (byteOf c == 34) = false :=
    (byteOf_beq (d := '"') ascii (by decide)).trans (decide_eq_false quote)
  have folded := foldBytes_eq fold (fold h (toI64 kind)) inside (by omega)
  rw [start.there, Utf8.encode_append, List.take_left] at folded
  refine ⟨ts + (encode taken).length, left, far, ?_⟩
  rw [step_reads here ascii, step.emit, notSpace, notBytes, notQuote]
  simp only [Bool.false_eq_true, if_false, classified, folded, pure_bind]
  simp [foldAll, Token.folded, kindAndText]

/-- What a scan from a later character on takes is a token. -/
theorem scanned {q : Char → Bool} {mode : I64} (ts : Nat) (kind : UInt8) (taken : List Char)
    {first : List Char} {token : Token}
    (agrees : Utf8.Agrees (fun b => continues mode (toI64 b)) q)
    (here : At mem i (c :: rest)) (ascii : c.toNat < 128) (space : isWhitespace c = false)
    (byteString : ¬ (c = 'b' ∧ rest.head? = some '"')) (quote : c ≠ '"')
    (start : At mem ts (taken ++ first)) (far : i < ts + (encode taken).length)
    (classified : classify mem (BitVec.ofNat 64 i) (byteOf c) (peek rest) mem.len =
      scanEnd mem (BitVec.ofNat 64 (ts + (encode taken).length)) mem.len mode >>= fun se =>
        pure { mem := se.mem, ts := BitVec.ofNat 64 ts, te := se.stop, kind := toI64 kind
               next := se.stop })
    (kindAndText : token.kindAndText = (kind, encode (taken ++ first.takeWhile q)))
    (short : mem.bytes.length < maxEvalLoopIterations) :
    Takes fold mem i (some token) (first.dropWhile q) := by
  have after := start.add _ _ rfl
  have length : (encode (taken ++ first.takeWhile q)).length =
      (encode taken).length + (encode (first.takeWhile q)).length := by
    rw [Utf8.encode_append, List.length_append]
  refine text ts kind here ascii space byteString quote ?_ ?_ ?_ kindAndText short
  · rwa [List.append_assoc, List.takeWhile_append_dropWhile]
  · omega
  · rw [classified, scanEnd_eq agrees after short, length, Nat.add_assoc]
    rfl

/-- The first character of an identifier is the same for both lexers. -/
theorem isIdentStart_eq (ascii : c.toNat < 128) : isIdentStart (byteOf c) = startsIdent c :=
  Utf8.ascii_all (P := fun c => isIdentStart (byteOf c) = startsIdent c) (by decide) ascii

/-- The first character of a number is the same for both lexers. -/
theorem isDigit_eq (ascii : c.toNat < 128) : isDigit (byteOf c) = c.isDigit :=
  Utf8.ascii_all (P := fun c => isDigit (byteOf c) = c.isDigit) (by decide) ascii

/-- A character below 128 is one byte. -/
theorem encode_length (ascii : c.toNat < 128) (l : List Char) :
    (encode (c :: l)).length = (encode l).length + 1 := by
  rw [Utf8.encode_cons, Utf8.encodeChar_ascii ascii, List.length_append, List.length_singleton,
    Nat.add_comm]

/-- An identifier. -/
theorem ident (here : At mem i (c :: rest)) (space : isWhitespace c = false)
    (byteString : ¬ (c = 'b' ∧ rest.head? = some '"')) (starts : startsIdent c = true)
    (short : mem.bytes.length < maxEvalLoopIterations) :
    Takes fold mem i (some (.ident (c :: rest.takeWhile continuesIdent)))
      (rest.dropWhile continuesIdent) := by
  have ascii := startsIdent_ascii starts
  have quote : c ≠ '"' := by
    rintro rfl
    exact absurd starts (by decide)
  have one : (encode [c]).length = 1 := encode_length ascii []
  refine scanned i 1 [c] agrees_ident here ascii space byteString
    quote here (by omega) ?_ ?_ short
  · rw [classify, if_pos ((isIdentStart_eq ascii).trans starts), ofNat_succ, one]
    rfl
  · rw [Token.kindAndText, utf8_ofList]
    rfl

/-- A decimal number. -/
theorem number (here : At mem i (c :: rest)) (space : isWhitespace c = false)
    (starts : startsIdent c = false) (digit : c.isDigit = true)
    (decimal : ¬ (c = '0' ∧ (rest.head? = some 'x' ∨ rest.head? = some 'X')))
    (short : mem.bytes.length < maxEvalLoopIterations) :
    Takes fold mem i (some (.number (c :: rest.takeWhile Char.isDigit)))
      (rest.dropWhile Char.isDigit) := by
  have ascii := isDigit_ascii digit
  have quote : c ≠ '"' := by
    rintro rfl
    exact absurd digit (by decide)
  have byteString : ¬ (c = 'b' ∧ rest.head? = some '"') := by
    rintro ⟨rfl, -⟩
    exact absurd digit (by decide)
  have one : (encode [c]).length = 1 := encode_length ascii []
  have notHex : (byteOf c == 48 && (peek rest == 120 || peek rest == 88)) = false := by
    have zero := byteOf_beq (d := '0') ascii (by decide)
    have lower := peek_beq rest (d := 'x') (by decide) (by decide)
    have upper := peek_beq rest (d := 'X') (by decide) (by decide)
    change (byteOf c == byteOf '0' && (peek rest == byteOf 'x' || peek rest == byteOf 'X')) = false
    rw [zero, lower, upper, ← Bool.decide_or, ← Bool.decide_and, decide_eq_false decimal]
  refine scanned i 2 [c] agrees_digit here ascii space byteString
    quote here (by omega) ?_ ?_ short
  · rw [classify, (isIdentStart_eq ascii).trans starts, (isDigit_eq ascii).trans digit, notHex,
      ofNat_succ, one]
    rfl
  · rw [Token.kindAndText, utf8_ofList]
    rfl

/-- A hexadecimal number. -/
theorem hexNumber {x : Char} (here : At mem i ('0' :: x :: rest)) (hex : x = 'x' ∨ x = 'X')
    (short : mem.bytes.length < maxEvalLoopIterations) :
    Takes fold mem i (some (.number ('0' :: x :: rest.takeWhile isAsciiHexdigit)))
      (rest.dropWhile isAsciiHexdigit) := by
  have ascii : x.toNat < 128 := by rcases hex with rfl | rfl <;> decide
  have two : (encode ['0', x]).length = 2 := by
    rw [encode_length (by decide), encode_length ascii]
    rfl
  have isHex :
      (byteOf '0' == 48 && (peek (x :: rest) == 120 || peek (x :: rest) == 88)) = true := by
    have lower := peek_beq (x :: rest) (d := 'x') (by decide) (by decide)
    have upper := peek_beq (x :: rest) (d := 'X') (by decide) (by decide)
    change (byteOf '0' == byteOf '0' &&
      (peek (x :: rest) == byteOf 'x' || peek (x :: rest) == byteOf 'X')) = true
    rw [lower, upper, ← Bool.decide_or, decide_eq_true (by simpa using hex)]
    decide
  refine scanned i 2 ['0', x] agrees_hex here (by decide) (by decide)
    (by simp) (by decide) here (by omega) ?_ ?_ short
  · have after : BitVec.ofNat 64 i + 2 = BitVec.ofNat 64 (i + 2) := (BitVec.ofNat_add i 2).symm
    rw [classify, isHex, after, two]
    rfl
  · rw [Token.kindAndText, utf8_ofList]
    rfl

/-- A comment, without the characters that it starts with. -/
theorem comment (here : At mem i ('/' :: '/' :: rest))
    (short : mem.bytes.length < maxEvalLoopIterations) :
    Takes fold mem i (some (.comment (rest.takeWhile (· != '\n'))))
      (rest.dropWhile (· != '\n')) := by
  have after : BitVec.ofNat 64 i + 2 = BitVec.ofNat 64 (i + 2) := (BitVec.ofNat_add i 2).symm
  have slash : (peek ('/' :: rest) == 47) = true :=
    peek_beq _ (d := '/') (by decide) (by decide)
  have start : At mem (i + 2) rest := ((here.ascii (by decide)).2.ascii (by decide)).2
  refine scanned (i + 2) 5 [] agrees_comment here (by decide) (by decide)
    (by simp) (by decide) start (by simp) ?_ ?_ short
  · have both : (byteOf '/' == 47 && peek ('/' :: rest) == 47) = true := by
      rw [slash]
      decide
    rw [classify, both, after]
    rfl
  · rw [Token.kindAndText, utf8_ofList]
    rfl

/-- A symbol of one character or of two. -/
theorem symbol {taken : List Char} (here : At mem i (c :: rest)) (ascii : c.toNat < 128)
    (space : isWhitespace c = false) (starts : startsIdent c = false) (digit : c.isDigit = false)
    (quote : c ≠ '"') (slash : ¬ (c = '/' ∧ rest.head? = some '/'))
    (split : c :: rest = taken ++ rest')
    (length : (encode taken).length =
      if rest.head?.any fun d => (c, d) ∈ twoCharSymbols then 2 else 1)
    (short : mem.bytes.length < maxEvalLoopIterations) :
    Takes fold mem i (some (.symbol taken)) rest' := by
  have byteString : ¬ (c = 'b' ∧ rest.head? = some '"') := by
    rintro ⟨rfl, -⟩
    exact absurd starts (by decide)
  have notComment : (byteOf c == 47 && peek rest == 47) = false := by
    have first := byteOf_beq (d := '/') ascii (by decide)
    have second := peek_beq rest (d := '/') (by decide) (by decide)
    change (byteOf c == byteOf '/' && peek rest == byteOf '/') = false
    rw [first, second, ← Bool.decide_and, decide_eq_false slash]
  have far : i < i + (encode taken).length := by
    rw [length]
    split <;> omega
  refine text i 6 here ascii space byteString quote (split ▸ here) far ?_ ?_ short
  · rw [classify, (isIdentStart_eq ascii).trans starts, (isDigit_eq ascii).trans digit, notComment,
      isTwoChar_eq ascii, length]
    cases rest.head?.any fun d => (c, d) ∈ twoCharSymbols <;>
      simp only [Bool.false_eq_true, if_true, if_false, BitVec.ofNat_add] <;> rfl
  · rw [Token.kindAndText, utf8_ofList]

/-- A step of one lexer is a step of the other. -/
theorem of_lexStep {token : Option Token} (here : At mem i (c :: rest))
    (lexed : lexStep c rest = .ok (token, rest')) (outside : asciiStep c token)
    (short : mem.bytes.length < maxEvalLoopIterations) : Takes fold mem i token rest' := by
  -- the cases in the order in which both lexers tell them apart; each has its own lemma
  rw [lexStep.eq_def] at lexed
  split at lexed
  case isTrue space =>
    cases lexed
    exact white here outside space
  case isFalse space =>
  have space := Bool.of_not_eq_true space
  split at lexed
  case isTrue starts =>
    obtain ⟨rfl, quoted⟩ := starts
    obtain ⟨⟨bytes, left⟩, literal, taken⟩ := Except.bind_eq_ok.mp lexed
    cases taken
    cases rest with
    | nil => cases quoted
    | cons d rest =>
      obtain rfl : d = '"' := by simpa using quoted
      have start : At mem (i + 2) rest := ((here.ascii (by decide)).2.ascii (by decide)).2
      obtain ⟨added, rfl, folds⟩ := @lexByteString_folds _ fold _ _ _ _ _ _ literal start
      exact byteString here folds short
  case isFalse notBytes =>
  split at lexed
  case isTrue starts =>
    cases lexed
    exact ident here space notBytes starts short
  case isFalse starts =>
  have starts := Bool.of_not_eq_true starts
  split at lexed
  case isTrue digit =>
    split at lexed
    case h_1 x digits =>
      split at lexed
      case isTrue hex =>
        cases lexed
        obtain ⟨rfl, hex⟩ := hex
        exact hexNumber here hex short
      case isFalse decimal =>
        cases lexed
        exact number here space starts digit (by simpa using decimal) short
    case h_2 =>
      cases lexed
      exact number here space starts digit (by simp) short
  case isFalse digit =>
  have digit := Bool.of_not_eq_true digit
  split at lexed
  case isTrue quote =>
    obtain rfl := quote
    obtain ⟨⟨value, left⟩, literal, taken⟩ := Except.bind_eq_ok.mp lexed
    cases taken
    obtain ⟨added, rfl, folds⟩ :=
      @lexString_folds _ fold _ _ _ _ _ _ literal (here.ascii (by decide)).2
    exact string here folds short
  case isFalse quote =>
  split at lexed
  case h_1 d rest =>
    split at lexed
    case isTrue slashes =>
      cases lexed
      obtain ⟨rfl, rfl⟩ := slashes
      exact comment here short
    case isFalse slashes =>
    split at lexed
    case isTrue two =>
      cases lexed
      -- symbols are told apart by bytes, so they have to be of one byte each
      have ascii : c.toNat < 128 := outside c (by simp)
      have second : d.toNat < 128 := outside d (by simp)
      refine symbol here ascii space starts digit quote (by simpa using slashes) rfl ?_ short
      rw [encode_length ascii, encode_length second, if_pos (by simpa using two)]
      rfl
    case isFalse two =>
      cases lexed
      have ascii : c.toNat < 128 := outside c (by simp)
      refine symbol here ascii space starts digit quote (by simpa using slashes) rfl ?_ short
      rw [encode_length ascii, if_neg (by simpa using two)]
      rfl
  case h_2 =>
    cases lexed
    have ascii : c.toNat < 128 := outside c (by simp)
    refine symbol here ascii space starts digit quote (by simp) rfl ?_ short
    rw [encode_length ascii, if_neg (by simp)]
    rfl

end Takes

/-- The tokens of a text, folded one after the other. -/
theorem scan_steps_tokens {chars : List Char} {tokens taken : List Token} {i : Nat}
    (lexed : lexFrom taken chars = .ok tokens) (outside : AsciiOutside chars)
    (here : At mem i chars) (short : mem.bytes.length < maxEvalLoopIterations)
    (count : I64) (h : δ) :
    ∃ added n, tokens = taken ++ added ++ [.eof] ∧ added.length ≤ n ∧ i + n ≤ mem.bytes.length ∧
      Steps (fun s : ScanS δ => s.i.slt mem.len)
        (fun cur => step fold cur.mem cur.i cur.count cur.hash mem.len) n
        { mem, i := BitVec.ofNat 64 i, count, hash := h }
        { mem, i := mem.len, count := count + BitVec.ofNat 64 added.length
          hash := foldAll fold h (added.flatMap Token.folded) } := by
  induction outside generalizing i taken count h with
  | nil =>
    rw [lexFrom_nil] at lexed
    cases lexed
    have inside := here.inside
    have done : mem.bytes.length ≤ i := List.drop_eq_nil_iff.mp here.there
    obtain rfl : i = mem.bytes.length := by omega
    refine ⟨[], 0, by simp, Nat.le_refl _, Nat.le_refl _, ?_⟩
    have nothing : count + BitVec.ofNat 64 0 = count := BitVec.add_zero count
    rw [List.length_nil, nothing]
    exact .refl _
  | @cons c rest rest' token step ascii _ ih =>
    rw [lexFrom_cons step] at lexed
    obtain ⟨j, left, further, stepped⟩ :=
      @Takes.of_lexStep _ fold _ _ _ _ _ _ here step ascii short count h
    obtain ⟨added, n, rfl, few, bounded, steps⟩ := ih lexed left
      (count + BitVec.ofNat 64 token.toList.length)
      (foldAll fold h (token.toList.flatMap Token.folded))
    have one : token.toList.length ≤ 1 := by cases token <;> simp
    refine ⟨token.toList ++ added, n + 1, by simp, ?_, by omega, ?_⟩
    · rw [List.length_append]
      omega
    have more : (BitVec.ofNat 64 i).slt mem.len = true := by
      have inside := left.inside
      rw [Buffer.len, slt_ofNat here.small mem.length_small, decide_eq_true (by omega)]
    rw [List.length_append, BitVec.ofNat_add, ← BitVec.add_assoc, List.flatMap_append,
      foldAll_append]
    exact .head more stepped steps

/-- All tokens of a source text are folded, and then its end. -/
theorem scan_eq {source : String} {tokens : List Token} (lexed : lex source = .ok tokens)
    (outside : AsciiOutside source.toList) (bytes : mem.bytes = utf8 source)
    (short : mem.bytes.length < maxEvalLoopIterations) (seed : δ) :
    tokens.length < 2 ^ 63 ∧ ∃ final, scan fold mem seed = .ok final ∧
      final.count + 1 = BitVec.ofNat 64 tokens.length ∧
      fold final.hash 7 = foldAll fold seed (tokens.flatMap Token.folded) := by
  have here : At mem 0 source.toList := by
    refine ⟨Nat.zero_le _, ?_⟩
    rw [List.drop_zero, bytes, ← utf8_ofList, String.ofList_toList]
  obtain ⟨added, n, rfl, few, bounded, steps⟩ :=
    scan_steps_tokens fold lexed outside here short 0 seed
  have small := mem.length_small
  have last : mem.len.slt mem.len = false := by
    rw [Buffer.len, slt_ofNat small small, decide_eq_false (Nat.lt_irrefl _)]
  have far : maxEvalLoopIterations < 2 ^ 63 := by decide
  refine ⟨by simp only [List.length_append, List.length_nil, List.length_singleton]; omega, ?_⟩
  refine ⟨{ mem, i := mem.len, count := 0 + BitVec.ofNat 64 added.length
            hash := foldAll fold seed (added.flatMap Token.folded) }, ?_, ?_, ?_⟩
  · rw [scan, loop]
    exact steps.loop_eq last (by omega)
  · simp only [List.nil_append, List.length_append, List.length_singleton]
    rw [BitVec.ofNat_add]
    exact congrArg (· + 1) (BitVec.zero_add _)
  · rw [List.nil_append, List.flatMap_append, foldAll_append]
    rfl

end Digest

/-! ### The program -/

/-- Both digests take the same step. -/
theorem fnvStep_toI64 (h : U32) (b : UInt8) : fnvStep h (toI64 b) = fnv1a32Step h b := by
  have byte : toU32 (toI64 b) = b.toBitVec.setWidth 32 :=
    BitVec.setWidth_setWidth_of_le _ (by decide)
  rw [fnvStep, byte]
  rfl

/-- A number is written in decimal. -/
theorem printNum_writes {k : Nat} (small : k < 2 ^ 63) :
    (printNum (BitVec.ofNat 64 k)).Writes (utf8 (toString k)) := by
  intro world
  obtain ⟨s, formatted, bytes, short⟩ := i64ToString_eq small
  have filled := fill_loop (n := 64) s (by decide) (Nat.le_trans short (by decide))
  have taken := take_arrayOf 0 (l := s.bytes) (n := 64) (Nat.le_trans short (by decide))
  have count : s.len.toNat = s.bytes.length := toNat_ofNat s.length_small
  refine ⟨s.len, ?_⟩
  rw [printNum, formatted]
  simp only [Run.ok_bind, filled]
  rw [Process.run_ofRun_bind]
  simp only [pure, Except.pure]
  rw [Run.ok_bind]
  simp only
  rw [run_write (by rw [count, Vector.length_toList]; omega), count, taken, bytes]

/-- The line that sums up the tokens is written piece by piece. -/
theorem printProbe_writes {count hashv : Nat} (smallCount : count < 2 ^ 63)
    (smallHash : hashv < 2 ^ 63) :
    (printProbe (BitVec.ofNat 64 count) (BitVec.ofNat 64 hashv)).Writes (utf8
      ("tokens " ++ toString count ++ " fnv32 " ++ toString hashv ++ "\n")) := by
  have static (s : String) (text : utf8 s ≠ []) (short : (utf8 s).length < 2 ^ 63) :
      (printStatic (utf8 s)).Writes (utf8 s) := printStatic_writes text short
  have writes := (static "tokens " (by decide) (by decide)).append
    ((printNum_writes smallCount).append
      ((static " fnv32 " (by decide) (by decide)).append
        ((printNum_writes smallHash).append (static "\n" (by decide) (by decide)))))
  simp only [utf8_append, List.append_assoc]
  exact writes

/-- The digest of the tokens is the one that the other lexer sums them up with. -/
theorem foldAll_fnvStep (tokens : List Token) :
    foldAll fnvStep fnvSeed (tokens.flatMap Token.folded) = tokenDigest tokens := by
  simp only [foldAll, fnvStep_toI64, List.foldl_flatMap]
  rfl

/-- A string that the standard input fits into. -/
def empty : Buffer :=
  { bytes := [], capacity := memCap.toNat, fits := Nat.zero_le _, sized := by decide }

/-- The program writes the line that the other lexer sums a text up with. -/
theorem main_run {source line : String} (probed : tokenProbe source = .ok line)
    (outside : AsciiOutside source.toList) (fits : (utf8 source).length ≤ memCap.toNat) :
    ∃ rest, main.run { stdin := utf8 source, stdout := [] } =
      (.ok 0, { stdin := rest, stdout := utf8 (line ++ "\n") }) := by
  obtain ⟨tokens, lexed, summed⟩ := Except.bind_eq_ok.mp probed
  cases summed
  have created : Buffer.withCapacity memCap = .ok empty := rfl
  have room : empty.bytes.length + (utf8 source).length ≤ empty.capacity := by
    change 0 + (utf8 source).length ≤ memCap.toNat
    omega
  obtain ⟨mem, appended, bytes, capacity⟩ := Buffer.append_ok room
  obtain ⟨rest, run⟩ := readAll_run empty (utf8 source) [] (by decide)
  have short : mem.bytes.length < maxEvalLoopIterations :=
    Nat.lt_of_le_of_lt (capacity ▸ mem.fits) (by decide)
  obtain ⟨few, final, scanned, count, hash⟩ := scan_eq fnvStep lexed outside bytes short fnvSeed
  have digest : (fnvStep final.hash 7).setWidth 64 =
      BitVec.ofNat 64 (tokenDigest tokens).toNat := by
    rw [hash, foldAll_fnvStep, BitVec.ofNat_toNat]
  obtain ⟨written, printed⟩ := printProbe_writes few
    (Nat.lt_trans (tokenDigest tokens).isLt (by decide)) { stdin := rest, stdout := [] }
  refine ⟨rest, ?_⟩
  rw [main, Process.run_ofRun_bind, created]
  simp only
  rw [Process.run_bind, run, appended]
  simp only
  rw [Process.run_bind, probe, Process.run_ofRun_bind, scanned]
  simp only [count, digest]
  rw [printed]
  simp [World.print]

/-- The two lexers agree on a text that is ASCII outside literals and comments and that there is
room for: they find as many tokens, fold the same bytes and print the same line. -/
theorem lexers_agree {source : String} {tokens : List Token} (lexed : lex source = .ok tokens)
    (outside : AsciiOutside source.toList) (fits : (utf8 source).length ≤ memCap.toNat) :
    (∀ (δ : Type) (fold : δ → I64 → δ) (seed : δ) (mem : Buffer), mem.bytes = utf8 source →
      mem.capacity = memCap.toNat →
      ∃ final, scan fold mem seed = .ok final ∧ (final.count + 1).toNat = tokens.length ∧
        fold final.hash 7 =
          (tokens.flatMap Token.folded).foldl (fun h b => fold h (toI64 b)) seed) ∧
    ∃ line rest, tokenProbe source = .ok line ∧
      main.run { stdin := utf8 source, stdout := [] } =
        (.ok 0, { stdin := rest, stdout := utf8 (line ++ "\n") }) := by
  constructor
  · intro δ fold seed mem bytes capacity
    have short : mem.bytes.length < maxEvalLoopIterations :=
      Nat.lt_of_le_of_lt (capacity ▸ mem.fits) (by decide)
    obtain ⟨few, final, scanned, count, hash⟩ := scan_eq fold lexed outside bytes short seed
    exact ⟨final, scanned, by rw [count, toNat_ofNat few], hash⟩
  · have probed : tokenProbe source = .ok ("tokens " ++ toString tokens.length ++ " fnv32 " ++
        toString (tokenDigest tokens).toNat) := by
      rw [tokenProbe, lexed]
      rfl
    obtain ⟨rest, run⟩ := main_run probed outside fits
    exact ⟨_, rest, probed, run⟩

/-- A string literal may hold any character. -/
theorem lexers_agree_literal :
    ∃ line rest, tokenProbe "x=\"é\"" = .ok line ∧
      main.run { stdin := utf8 "x=\"é\"", stdout := [] } =
        (.ok 0, { stdin := rest, stdout := utf8 (line ++ "\n") }) := by
  have chars : "x=\"é\"".toList = ['x', '=', '"', 'é', '"'] := by decide
  have first : lexStep 'x' ['=', '"', 'é', '"'] =
      .ok (some (.ident ['x']), ['=', '"', 'é', '"']) := rfl
  have second : lexStep '=' ['"', 'é', '"'] = .ok (some (.symbol ['=']), ['"', 'é', '"']) := rfl
  have third : lexStep '"' ['é', '"'] = .ok (some (.string ['é']), []) := rfl
  have lexed : lex "x=\"é\"" = .ok [.ident ['x'], .symbol ['='], .string ['é'], .eof] := by
    rw [lex, chars, lexFrom_cons first, lexFrom_cons second, lexFrom_cons third, lexFrom_nil]
    rfl
  have outside : AsciiOutside "x=\"é\"".toList := by
    rw [chars]
    exact .cons first (by simp [asciiStep]) (.cons second (by simp [asciiStep])
      (.cons third trivial .nil))
  exact (lexers_agree lexed outside (by decide)).2

end Lexer

end SelfHosted

end CodeDb
