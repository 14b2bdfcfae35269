import Mathlib.Data.List.Basic
import Mathlib.Data.List.TakeWhile
import Mathlib.Tactic.NormNum

/-!
# C text: bytes, decimal numerals, NUL-terminated strings

The part of the C library that byte-handling programs rest on, over lists of bytes.

* `decimal` and `intText` are what `%d` prints, `atoi` is what reads it back;
  `atoi_intText` is the round trip and `decimal_injective` says that two numbers never
  print alike.
* A pointer into a buffer is the rest of the buffer from there on.  `deref` and `ptrAdd`
  fault outside the buffer, so a function built from them that returns a value has read
  no byte outside it.
* `CString` is the content of a NUL-terminated string, with the absence of a NUL byte as
  a field; `strcmp` compares two pointers byte by byte and
  `strcmp_terminated` says when it answers `0`.
-/

set_option autoImplicit false

namespace Library

/-- The byte of an ASCII character. -/
def ch (c : Char) : UInt8 := UInt8.ofNat c.toNat

/-- The bytes of an ASCII text. -/
def bytes (s : String) : List UInt8 := s.toList.map ch

/-! ## Decimal numerals -/

/-- The byte is one of the ten decimal digits. -/
def isDigit (c : UInt8) : Bool := '0'.toNat ≤ c.toNat && c.toNat ≤ '9'.toNat

/-- The number a run of digits denotes when it is appended to the digits of `n`. -/
def numeral (ds : List UInt8) (n : ℕ) : ℕ :=
  ds.foldl (fun n c => 10 * n + (c.toNat - '0'.toNat)) n

/-- The decimal digits of a number, most significant first. -/
def decimal (n : ℕ) : List UInt8 := (Nat.toDigits 10 n).map ch

/-- What `sprintf` prints for `%d`. -/
def intText : ℤ → List UInt8
  | .ofNat n => decimal n
  | .negSucc n => ch '-' :: decimal (n + 1)

/-- The byte is white space in the sense of `isspace` in the C locale. -/
def isSpace (c : UInt8) : Bool := c.toNat = 32 || (9 ≤ c.toNat && c.toNat ≤ 13)

/-- `atoi`: skip white space, accept one sign, read digits up to the first other byte. -/
def atoi (s : List UInt8) : ℤ :=
  match s.dropWhile isSpace with
  | [] => 0
  | c :: t =>
      if c = ch '-' then -(numeral (t.takeWhile isDigit) 0 : ℕ)
      else if c = ch '+' then (numeral (t.takeWhile isDigit) 0 : ℕ)
      else (numeral ((c :: t).takeWhile isDigit) 0 : ℕ)

@[simp] theorem numeral_nil (n : ℕ) : numeral [] n = n := rfl

@[simp] theorem numeral_cons (c : UInt8) (ds : List UInt8) (n : ℕ) :
    numeral (c :: ds) n = numeral ds (10 * n + (c.toNat - '0'.toNat)) := by
  simp only [numeral, List.foldl_cons]

/-- INTERNAL: a digit character and its byte have the same code. -/
theorem ch_toNat_of_isDigit {c : Char} (h : c.isDigit = true) : (ch c).toNat = c.toNat := by
  have hle : c.toNat ≤ 57 := by
    simp only [Char.isDigit, Bool.and_eq_true, decide_eq_true_eq] at h
    exact h.2
  unfold ch
  rw [UInt8.toNat_ofNat']
  omega

/-- INTERNAL: a digit character gives a digit byte. -/
theorem isDigit_ch {c : Char} (h : c.isDigit = true) : isDigit (ch c) = true := by
  unfold isDigit
  rw [ch_toNat_of_isDigit h]
  exact h

/-- INTERNAL: every byte of a numeral is a digit. -/
theorem isDigit_of_mem_decimal {n : ℕ} {c : UInt8} (h : c ∈ decimal n) :
    isDigit c = true := by
  obtain ⟨d, hd, rfl⟩ := List.mem_map.mp h
  exact isDigit_ch (Nat.isDigit_of_mem_toDigits (by norm_num) (by norm_num) hd)

theorem decimal_ne_nil (n : ℕ) : decimal n ≠ [] := by
  simp [decimal, Nat.toDigits_ne_nil]

/-- INTERNAL: reading digit bytes is reading digit characters. -/
theorem numeral_map_ch (l : List Char) (h : ∀ c ∈ l, c.isDigit = true) (n : ℕ) :
    numeral (l.map ch) n = Nat.ofDigitChars 10 l n := by
  induction l generalizing n with
  | nil => rfl
  | cons c l ih =>
      have hc := ch_toNat_of_isDigit (h c (by simp))
      rw [List.map_cons, numeral_cons, hc, Nat.ofDigitChars_cons]
      exact ih (fun d hd => h d (by simp [hd])) _

/-- **Reading back a numeral** gives the number that was printed. -/
@[simp] theorem numeral_decimal (n : ℕ) : numeral (decimal n) 0 = n := by
  unfold decimal
  rw [numeral_map_ch _ fun c hc =>
    Nat.isDigit_of_mem_toDigits (by norm_num) (by norm_num) hc]
  exact Nat.ofDigitChars_ten_toDigits

/-- Two numbers never print alike. -/
theorem decimal_injective {m n : ℕ} (h : decimal m = decimal n) : m = n := by
  have := congrArg (fun ds => numeral ds 0) h
  simpa using this

/-- The text goes on with something that is not a digit. -/
def NoDigitHead (t : List UInt8) : Prop := ∀ c ∈ t.head?, isDigit c = false

theorem noDigitHead_cons {c : UInt8} (hc : isDigit c = false) (t : List UInt8) :
    NoDigitHead (c :: t) := by
  intro x hx
  cases hx
  exact hc

/-- INTERNAL: a run of digits in front of a text that goes on differently. -/
theorem takeWhile_digits_append {p t : List UInt8} (hp : ∀ c ∈ p, isDigit c = true)
    (ht : NoDigitHead t) :
    (p ++ t).takeWhile isDigit = p ∧ (p ++ t).dropWhile isDigit = t := by
  rw [List.takeWhile_append_of_pos hp, List.dropWhile_append_of_pos hp]
  cases t with
  | nil => simp
  | cons c t =>
      have hc : ¬isDigit c = true := by simp [ht c (by simp)]
      rw [List.takeWhile_cons_of_neg hc, List.dropWhile_cons_of_neg hc]
      simp

/-- INTERNAL: the numeral in front of a text that goes on differently. -/
theorem takeWhile_decimal_append (n : ℕ) {t : List UInt8} (ht : NoDigitHead t) :
    (decimal n ++ t).takeWhile isDigit = decimal n ∧
      (decimal n ++ t).dropWhile isDigit = t :=
  takeWhile_digits_append (fun _ hc => isDigit_of_mem_decimal hc) ht

/-- INTERNAL: a numeral and what follows it can be told apart. -/
theorem decimal_append_inj {m n : ℕ} {s t : List UInt8} (hs : NoDigitHead s)
    (ht : NoDigitHead t) (h : decimal m ++ s = decimal n ++ t) : m = n ∧ s = t := by
  obtain ⟨htake, hdrop⟩ := takeWhile_decimal_append m hs
  rw [h] at htake hdrop
  obtain ⟨htake', hdrop'⟩ := takeWhile_decimal_append n ht
  rw [htake'] at htake
  rw [hdrop'] at hdrop
  exact ⟨(decimal_injective htake).symm, hdrop.symm⟩

/-- INTERNAL: a digit is neither white space nor a sign. -/
theorem not_space_of_isDigit {c : UInt8} (h : isDigit c = true) :
    isSpace c = false ∧ c ≠ ch '-' ∧ c ≠ ch '+' := by
  simp only [isDigit, Char.reduceToNat, Bool.and_eq_true, decide_eq_true_eq] at h
  refine ⟨?_, ?_, ?_⟩
  · simp only [isSpace, Bool.or_eq_false_iff, decide_eq_false_iff_not, Bool.and_eq_false_iff]
    omega
  · rintro rfl
    exact absurd h.1 (by decide)
  · rintro rfl
    exact absurd h.1 (by decide)

/-- INTERNAL: the whole of a numeral is one run of digits. -/
theorem takeWhile_decimal (n : ℕ) : (decimal n).takeWhile isDigit = decimal n :=
  List.takeWhile_eq_self_iff.mpr fun _ hc => isDigit_of_mem_decimal hc

theorem atoi_decimal (n : ℕ) : atoi (decimal n) = n := by
  have htake := takeWhile_decimal n
  have hnum := numeral_decimal n
  cases hd : decimal n with
  | nil => exact absurd hd (decimal_ne_nil n)
  | cons c t =>
      obtain ⟨hs, hm, hp⟩ :=
        not_space_of_isDigit (isDigit_of_mem_decimal (n := n) (c := c) (by simp [hd]))
      rw [hd] at htake hnum
      unfold atoi
      rw [List.dropWhile_cons_of_neg (by simp [hs])]
      simp only [if_neg hm, if_neg hp, htake, hnum]

/-- **The round trip of `%d` and `atoi`.** -/
@[simp] theorem atoi_intText (x : ℤ) : atoi (intText x) = x := by
  cases x with
  | ofNat n => exact atoi_decimal n
  | negSucc n =>
      have hs : isSpace (ch '-') = false := by decide
      unfold atoi intText
      rw [List.dropWhile_cons_of_neg (by simp [hs])]
      simp only [if_true, takeWhile_decimal, numeral_decimal]
      omega

theorem intText_ne_nil (x : ℤ) : intText x ≠ [] := by
  cases x with
  | ofNat n => exact decimal_ne_nil n
  | negSucc n => simp [intText]

theorem noNul_decimal (n : ℕ) : 0 ∉ decimal n := by
  intro h
  exact absurd (isDigit_of_mem_decimal h) (by decide)

theorem noNul_intText (x : ℤ) : 0 ∉ intText x := by
  have hminus : (0 : UInt8) ≠ ch '-' := by decide
  cases x with
  | ofNat n => exact noNul_decimal n
  | negSucc n => simp [intText, hminus, noNul_decimal]

/-! ## Checked pointers -/

/-- What goes wrong in a checked execution: an access outside the object a pointer points
into, or the bound on the number of iterations is reached. -/
inductive Fault
  | outOfBounds
  | outOfFuel
  deriving DecidableEq, Repr

/-- The byte a pointer points to. -/
def deref : List UInt8 → Except Fault UInt8
  | [] => .error .outOfBounds
  | c :: _ => .ok c

/-- Pointer arithmetic, up to one past the end of the buffer. -/
def ptrAdd (p : List UInt8) (k : ℤ) : Except Fault (List UInt8) :=
  if 0 ≤ k ∧ k ≤ p.length then .ok (p.drop k.toNat) else .error .outOfBounds

/-- `strcmp`: the difference of the first two bytes that differ, `0` when the strings end
together. -/
def strcmp : List UInt8 → List UInt8 → Except Fault ℤ
  | [], _ => .error .outOfBounds
  | _, [] => .error .outOfBounds
  | a :: s, b :: t =>
      if a ≠ b then .ok ((a.toNat : ℤ) - b.toNat)
      else if a = 0 then .ok 0
      else strcmp s t

@[simp] theorem ok_bind {α β : Type} (x : α) (f : α → Except Fault β) :
    ((Except.ok x : Except Fault α) >>= f) = f x := rfl

/-- INTERNAL: a computation that succeeds did so step by step. -/
theorem exists_of_bind_ok {α β : Type} {x : Except Fault α} {f : α → Except Fault β} {b : β}
    (h : (x >>= f) = .ok b) : ∃ a, x = .ok a ∧ f a = .ok b := by
  cases x with
  | error e => cases h
  | ok a => exact ⟨a, rfl, h⟩

/-- INTERNAL: the result of a computation that does not fail. -/
theorem exists_of_isOk {α : Type} {x : Except Fault α} (h : x.isOk = true) : ∃ a, x = .ok a := by
  cases x with
  | error e => cases h
  | ok a => exact ⟨a, rfl⟩

@[simp] theorem deref_cons (c : UInt8) (s : List UInt8) : deref (c :: s) = .ok c := rfl

/-- INTERNAL: a pointer moved over a known prefix. -/
theorem ptrAdd_append (pre s : List UInt8) (k : ℤ) (hk : k = pre.length) :
    ptrAdd (pre ++ s) k = .ok s := by
  subst hk
  unfold ptrAdd
  rw [if_pos (by simp only [List.length_append, Nat.cast_add]; omega)]
  simp

/-- INTERNAL: a pointer moved by an offset inside a known front part. -/
theorem ptrAdd_drop (s t : List UInt8) (k : ℕ) (hk : k ≤ s.length) :
    ptrAdd (s ++ t) k = .ok (s.drop k ++ t) := by
  have hsplit := ptrAdd_append (s.take k) (s.drop k ++ t) k (by simp [hk])
  rwa [← List.append_assoc, List.take_append_drop] at hsplit

/-- INTERNAL: strings whose first bytes differ are different. -/
theorem strcmp_cons_ne {a b : UInt8} (s t : List UInt8) (h : a ≠ b) :
    ∃ d, strcmp (a :: s) (b :: t) = .ok d ∧ d ≠ 0 := by
  refine ⟨(a.toNat : ℤ) - b.toNat, by simp [strcmp, h], ?_⟩
  intro hd
  exact h (UInt8.toNat_inj.mp (by omega))

/-- The content of a NUL-terminated string: the bytes before the first NUL. -/
structure CString where
  toList : List UInt8
  noNul : 0 ∉ toList
  deriving DecidableEq

theorem CString.ext {s t : CString} (h : s.toList = t.toList) : s = t := by
  cases s
  cases t
  cases h
  rfl

/-- The bytes of a string in memory, with the terminator. -/
def CString.terminated (s : CString) : List UInt8 := s.toList ++ [0]

/-- The string a pointer to bytes denotes: everything before the first NUL. -/
def CString.ofBytes (s : List UInt8) : CString where
  toList := s.takeWhile (· ≠ 0)
  noNul := fun h => by simpa using List.mem_takeWhile_imp h

/-- A literal. -/
def cstr (s : String) : CString := CString.ofBytes (bytes s)

/-- `strlen`: the number of bytes in front of the first NUL. -/
def strlen : List UInt8 → Except Fault ℕ
  | [] => .error .outOfBounds
  | c :: s => if c = 0 then .ok 0 else (strlen s).map (· + 1)

/-- `strncpy`: copy up to `n` bytes, stop at a NUL, and pad with NUL bytes up to `n`. -/
def strncpy (dst src : List UInt8) (n : ℕ) : Except Fault (List UInt8) :=
  let s := (src.take n).takeWhile (· ≠ 0)
  if n ≤ dst.length then .ok (s ++ List.replicate (n - s.length) 0 ++ dst.drop n)
  else .error .outOfBounds

/-- `strcpy` into an array of `size` bytes: the source must be terminated and fit with its
terminator. -/
def strcpy (size : ℕ) (src : List UInt8) :
    Except Fault { s : CString // s.toList.length < size } :=
  if h : (CString.ofBytes src).toList.length < size ∧ 0 ∈ src then
    .ok ⟨CString.ofBytes src, h.1⟩
  else .error .outOfBounds

/-- INTERNAL: bytes without a NUL in front of a NUL are the string there. -/
theorem CString.ofBytes_append (s : CString) (t : List UInt8) :
    CString.ofBytes (s.toList ++ 0 :: t) = s := by
  apply CString.ext
  show (s.toList ++ 0 :: t).takeWhile (· ≠ 0) = s.toList
  rw [List.takeWhile_append_of_pos, List.takeWhile_cons_of_neg (by simp), List.append_nil]
  intro c hc
  simp only [decide_eq_true_eq]
  rintro rfl
  exact s.noNul hc

/-- INTERNAL: the length of a string in front of its terminator. -/
theorem strlen_append {s : List UInt8} (hs : 0 ∉ s) (t : List UInt8) :
    strlen (s ++ 0 :: t) = .ok s.length := by
  induction s with
  | nil => rfl
  | cons c s ih =>
      have hc : c ≠ 0 := fun h => hs (by simp [h])
      rw [List.cons_append, strlen, if_neg hc, ih fun h => hs (by simp [h])]
      rfl

/-- INTERNAL: copying a terminated string that fits. -/
theorem strcpy_eq {size : ℕ} (s : CString) (hs : s.toList.length < size) (t : List UInt8) :
    strcpy size (s.toList ++ 0 :: t) = .ok ⟨s, hs⟩ := by
  have hof := CString.ofBytes_append s t
  unfold strcpy
  rw [dif_pos ⟨by rwa [hof], by simp⟩]
  congr 1
  exact Subtype.ext hof

/-- INTERNAL: a copy that succeeds holds the source up to its terminator. -/
theorem toList_of_strcpy {size : ℕ} {s t : List UInt8} (hs : 0 ∉ s)
    {d : { s : CString // s.toList.length < size }} (h : strcpy size (s ++ 0 :: t) = .ok d) :
    d.1.toList = s := by
  have hof := CString.ofBytes_append ⟨s, hs⟩ t
  unfold strcpy at h
  split at h
  · cases h
    exact congrArg CString.toList hof
  · cases h

/-- **`strcmp` on NUL-terminated strings** never reads past a terminator, whatever follows
it, and answers `0` exactly on equal strings. -/
theorem strcmp_terminated (s t : List UInt8) (hs : 0 ∉ s) (ht : 0 ∉ t)
    (s' t' : List UInt8) :
    ∃ d, strcmp (s ++ 0 :: s') (t ++ 0 :: t') = .ok d ∧ (d = 0 ↔ s = t) := by
  induction s generalizing t with
  | nil =>
      cases t with
      | nil => exact ⟨0, by simp [strcmp], by simp⟩
      | cons b t =>
          have hb : (0 : UInt8) ≠ b := fun h => ht (by simp [h])
          obtain ⟨d, hd, hne⟩ := strcmp_cons_ne s' (t ++ 0 :: t') hb
          exact ⟨d, hd, by simp [hne]⟩
  | cons a s ih =>
      have ha : a ≠ 0 := fun h => hs (by simp [h])
      cases t with
      | nil =>
          obtain ⟨d, hd, hne⟩ := strcmp_cons_ne (s ++ 0 :: s') t' ha
          exact ⟨d, hd, by simp [hne]⟩
      | cons b t =>
          by_cases hab : a = b
          · subst hab
            obtain ⟨d, hd, hiff⟩ := ih t (fun h => hs (by simp [h])) fun h => ht (by simp [h])
            refine ⟨d, ?_, by simp [hiff]⟩
            simpa [strcmp, ha] using hd
          · obtain ⟨d, hd, hne⟩ := strcmp_cons_ne (s ++ 0 :: s') (t ++ 0 :: t') hab
            exact ⟨d, hd, by simp [hne, hab]⟩

end Library
