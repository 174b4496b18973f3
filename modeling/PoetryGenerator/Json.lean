/-
# JSON texts (Python's `json`)

`json.loads` as the standard library documents and implements it: white space,
the literals with `NaN` and the infinities, numbers, strings with their escapes,
arrays and objects, and nothing after the value.

What it raises is a part of it.  A text that is no JSON is a `JSONDecodeError`.
But an integer of more than 4300 digits is a plain `ValueError`, because `int`
refuses it, and a text that is nested deeper than the interpreter's limit a
`RecursionError`; both are raised where the scanner meets them, before it has
seen the rest.

The scanner recurses over the depth that is left.  The items of one array or
object are read with as much fuel as there are characters, which is enough
(`scanOnce_fuel`).
-/

import Mathlib.Data.List.Basic
import PoetryGenerator.Text

namespace PoetryGenerator

/-- A value.  A float is its literal. -/
inductive Json
  | null
  | bool (b : Bool)
  | int (z : ℤ)
  | float (literal : Str)
  | str (s : CodePoints)
  | arr (items : List Json)
  | obj (members : List (CodePoints × Json))

/-- What `json.loads` raises. -/
inductive LoadsError
  | jsonDecodeError
  /-- The `ValueError` of `int`. -/
  | valueError
  | recursionError
deriving DecidableEq, Repr

namespace Json

/-- What a scanner reads, and the rest. -/
abbrev Scan (α : Type) := Str → Except LoadsError (α × Str)

/-- `WHITESPACE`. -/
def skipWs (s : Str) : Str := s.dropWhile fun c => c = ' ' || c = '\t' || c = '\n' || c = '\r'

/-! ### Strings -/

/-- The four digits after `\u`. -/
def unicodeEscape (a b c d : Char) : Option ℕ :=
  (hexDigit a).bind fun a => (hexDigit b).bind fun b => (hexDigit c).bind fun c =>
    (hexDigit d).map fun d => ((a * 16 + b) * 16 + c) * 16 + d

/-- The other escapes. -/
def simpleEscape (c : Char) : Option ℕ :=
  if c = '"' ∨ c = '\\' ∨ c = '/' then some c.toNat
  else if c = 'b' then some 8
  else if c = 'f' then some 12
  else if c = 'n' then some 10
  else if c = 'r' then some 13
  else if c = 't' then some 9
  else none

/-- `scanstring`: the code units up to the quotation mark. -/
def scanUnits : Scan (List ℕ)
  | '"' :: s => .ok ([], s)
  | '\\' :: 'u' :: a :: b :: c :: d :: s =>
    match unicodeEscape a b c d with
    | some unit => (scanUnits s).map fun (units, rest) => (unit :: units, rest)
    | none => .error .jsonDecodeError
  | '\\' :: e :: s =>
    match simpleEscape e with
    | some unit => (scanUnits s).map fun (units, rest) => (unit :: units, rest)
    | none => .error .jsonDecodeError
  | c :: s =>
    if c = '\\' ∨ c.toNat ≤ 0x1f then .error .jsonDecodeError
    else (scanUnits s).map fun (units, rest) => (c.toNat :: units, rest)
  | [] => .error .jsonDecodeError

/-- Pairs of surrogates are joined, and lone ones stay. -/
def joinSurrogates : List ℕ → CodePoints
  | high :: low :: units =>
    if 0xd800 ≤ high ∧ high ≤ 0xdbff ∧ 0xdc00 ≤ low ∧ low ≤ 0xdfff then
      (0x10000 + (high - 0xd800) * 0x400 + (low - 0xdc00)) :: joinSurrogates units
    else high :: joinSurrogates (low :: units)
  | units => units

/-- A string after its quotation mark. -/
def scanString : Scan CodePoints := fun s =>
  (scanUnits s).map fun (units, rest) => (joinSurrogates units, rest)

/-! ### Numbers -/

/-- `int` of some digits. -/
def intOfDigits (negative : Bool) (digits : Str) : Except LoadsError Json :=
  if 4300 < digits.length then .error .valueError
  else .ok (.int (if negative then -(Nat.ofDigitChars 10 digits 0) else Nat.ofDigitChars 10 digits 0))

/-- A fraction, or nothing. -/
def scanFraction : Str → Str × Str
  | '.' :: s => if s.head?.any Char.isDigit then ('.' :: s.takeWhile Char.isDigit, s.dropWhile Char.isDigit)
    else ([], '.' :: s)
  | s => ([], s)

/-- An exponent, or nothing. -/
def scanExponent : Str → Str × Str
  | e :: s =>
    let sign := s.takeWhile fun c => c = '+' || c = '-'
    let digits := s.drop sign.length
    if (e = 'e' ∨ e = 'E') ∧ sign.length ≤ 1 ∧ digits.head?.any Char.isDigit then
      (e :: sign ++ digits.takeWhile Char.isDigit, digits.dropWhile Char.isDigit)
    else ([], e :: s)
  | [] => ([], [])

/-- `_match_number` after the sign. -/
def scanNumber (negative : Bool) (s : Str) : Except LoadsError (Json × Str) :=
  let digits := if s.head? = some '0' then ['0'] else s.takeWhile Char.isDigit
  if digits = [] then .error .jsonDecodeError
  else
    let (fraction, s) := scanFraction (s.drop digits.length)
    let (exponent, s) := scanExponent s
    if fraction = [] ∧ exponent = [] then (intOfDigits negative digits).map (·, s)
    else .ok (.float ((if negative then ['-'] else []) ++ digits ++ fraction ++ exponent), s)

/-! ### Values -/

/-- A word, or nothing. -/
def scanWord (word : String) (value : Json) (s : Str) : Except LoadsError (Json × Str) :=
  if word.toList.isPrefixOf s then .ok (value, s.drop word.length) else .error .jsonDecodeError

/-- The items of an array, or the members of an object, up to the bracket that closes it. -/
def scanItems {α : Type} (item : Scan α) (close : Char) : ℕ → Scan (List α)
  | 0, _ => .error .jsonDecodeError
  | fuel + 1, s => do
    let (a, s) ← item s
    match skipWs s with
    | c :: s =>
      if c = close then .ok ([a], s)
      else if c = ',' then do
        let (as, s) ← scanItems item close fuel (skipWs s)
        .ok (a :: as, s)
      else .error .jsonDecodeError
    | [] => .error .jsonDecodeError

/-- A member of an object. -/
def scanMember (value : Scan Json) : Scan (CodePoints × Json)
  | '"' :: s => do
    let (key, s) ← scanString s
    match skipWs s with
    | ':' :: s => do
      let (v, s) ← value (skipWs s)
      .ok ((key, v), s)
    | _ => .error .jsonDecodeError
  | _ => .error .jsonDecodeError

/-- What stands between two brackets. -/
def scanBrackets {α : Type} (item : Scan α) (close : Char) (s : Str) : Except LoadsError (List α × Str) :=
  match skipWs s with
  | [] => .error .jsonDecodeError
  | c :: s => if c = close then .ok ([], s) else scanItems item close (s.length + 2) (c :: s)

/-- The words and the numbers, which `c` begins. -/
def scanLiteral (c : Char) (s : Str) : Except LoadsError (Json × Str) :=
  if c = 'n' then scanWord "null" .null (c :: s)
  else if c = 't' then scanWord "true" (.bool true) (c :: s)
  else if c = 'f' then scanWord "false" (.bool false) (c :: s)
  else if c = 'N' then scanWord "NaN" (.float "NaN".toList) (c :: s)
  else if c = 'I' then scanWord "Infinity" (.float "Infinity".toList) (c :: s)
  else if c = '-' then
    if "Infinity".toList.isPrefixOf s then .ok (.float "-Infinity".toList, s.drop 8)
    else scanNumber true s
  else scanNumber false (c :: s)

/-- `scan_once`, with the depth that is left. -/
def scanOnce : ℕ → Scan Json
  | _, [] => .error .jsonDecodeError
  | depth, c :: s =>
    if c = '"' then (scanString s).map fun (text, s) => (.str text, s)
    else if c = '{' then
      match depth with
      | 0 => .error .recursionError
      | depth + 1 => (scanBrackets (scanMember (scanOnce depth)) '}' s).map fun (members, s) =>
        (.obj members, s)
    else if c = '[' then
      match depth with
      | 0 => .error .recursionError
      | depth + 1 => (scanBrackets (scanOnce depth) ']' s).map fun (items, s) => (.arr items, s)
    else scanLiteral c s

/-- `json.loads`. -/
def loads (depth : ℕ) (s : Str) : Except LoadsError Json :=
  if s.head? = some '\ufeff' then .error .jsonDecodeError
  else do
    let (value, rest) ← scanOnce depth (skipWs s)
    if skipWs rest = [] then .ok value else .error .jsonDecodeError

/-! ### The fuel is enough -/

/-- What a scanner reads is not empty. -/
def Consumes {α : Type} (scan : Scan α) : Prop :=
  ∀ s a rest, scan s = .ok (a, rest) → rest.length < s.length

theorem length_skipWs (s : Str) : (skipWs s).length ≤ s.length := (List.dropWhile_sublist _).length_le

/-- A reading is changed, and the rest is not. -/
theorem map_eq_ok {α β : Type} {f : α → β} {x : Except LoadsError (α × Str)} {b : β} {rest : Str}
    (h : x.map (fun p => (f p.1, p.2)) = .ok (b, rest)) : ∃ a, x = .ok (a, rest) ∧ f a = b := by
  cases x with
  | error e => cases h
  | ok p =>
      obtain ⟨hb, hrest⟩ := Prod.mk.inj (Except.ok.inj h)
      exact ⟨p.1, by rw [← hrest], hb⟩

theorem bind_eq_ok {α β : Type} {f : α → Except LoadsError β} {x : Except LoadsError α} {b : β}
    (h : x.bind f = .ok b) : ∃ a, x = .ok a ∧ f a = .ok b := by
  cases x with
  | error e => cases h
  | ok a => exact ⟨a, rfl, h⟩

theorem consumes_scanUnits : Consumes scanUnits := by
  intro s
  fun_induction scanUnits s with
  | case1 s =>
      intro units rest h
      obtain ⟨-, rfl⟩ := Prod.mk.inj (Except.ok.inj h)
      exact Nat.lt_succ_self _
  | case2 a b c d s unit _ ih =>
      intro units rest h
      obtain ⟨units', hs, -⟩ := map_eq_ok h
      exact (ih _ _ hs).trans (by simp only [List.length_cons]; omega)
  | case4 e s _ unit _ ih =>
      intro units rest h
      obtain ⟨units', hs, -⟩ := map_eq_ok h
      exact (ih _ _ hs).trans (by simp only [List.length_cons]; omega)
  | case7 c s _ _ _ _ ih =>
      intro units rest h
      obtain ⟨units', hs, -⟩ := map_eq_ok h
      exact (ih _ _ hs).trans (Nat.lt_succ_self _)
  | case3 | case5 | case6 | case8 => exact fun _ _ h => by cases h

theorem consumes_scanString : Consumes scanString := fun s text rest h => by
  obtain ⟨units, hs, -⟩ := map_eq_ok (f := joinSurrogates) h
  exact consumes_scanUnits _ _ _ hs

theorem length_scanFraction (s : Str) : (scanFraction s).2.length ≤ s.length := by
  unfold scanFraction
  split
  · split_ifs
    · exact (List.dropWhile_sublist _).length_le.trans (Nat.le_succ _)
    · exact le_rfl
  · exact le_rfl

theorem length_scanExponent (s : Str) : (scanExponent s).2.length ≤ s.length := by
  unfold scanExponent
  split
  · dsimp only
    split_ifs
    · refine (List.dropWhile_sublist _).length_le.trans ?_
      rw [List.length_drop, List.length_cons]
      omega
    · exact le_rfl
  · exact le_rfl

theorem consumes_scanNumber (negative : Bool) : Consumes (scanNumber negative) := by
  intro s value rest h
  unfold scanNumber at h
  dsimp only at h
  generalize hdigits : (if s.head? = some '0' then ['0'] else s.takeWhile Char.isDigit) = digits at h
  have hpos : digits ≠ [] → (s.drop digits.length).length < s.length := fun hne => by
    have hs : s ≠ [] := by
      rintro rfl
      exact hne (hdigits.symm.trans rfl)
    have := List.length_pos_iff.2 hs
    have := List.length_pos_iff.2 hne
    rw [List.length_drop]
    omega
  have hle := (length_scanExponent (scanFraction (s.drop digits.length)).2).trans
    (length_scanFraction (s.drop digits.length))
  by_cases hnil : digits = []
  · rw [if_pos hnil] at h
    cases h
  · rw [if_neg hnil] at h
    refine lt_of_le_of_lt (le_of_eq_of_le ?_ hle) (hpos hnil)
    by_cases hint : (scanFraction (s.drop digits.length)).1 = [] ∧
        (scanExponent (scanFraction (s.drop digits.length)).2).1 = []
    · rw [if_pos hint] at h
      cases hvalue : intOfDigits negative digits with
      | error e => rw [hvalue] at h; cases h
      | ok value' =>
          rw [hvalue] at h
          exact congrArg List.length (Prod.mk.inj (Except.ok.inj h)).2.symm
    · rw [if_neg hint] at h
      exact congrArg List.length (Prod.mk.inj (Except.ok.inj h)).2.symm

theorem consumes_scanWord {word : String} {value : Json} (hw : 0 < word.length) :
    Consumes (scanWord word value) := by
  intro s a rest h
  unfold scanWord at h
  split_ifs at h with hprefix
  obtain ⟨-, rfl⟩ := Prod.mk.inj (Except.ok.inj h)
  have hle := (List.isPrefixOf_iff_prefix.1 hprefix).length_le
  rw [String.length_toList] at hle
  rw [List.length_drop]
  omega

section Items
variable {α : Type} {item : Scan α} (hitem : Consumes item) (close : Char)
include hitem

theorem consumes_scanItems (fuel : ℕ) : Consumes (scanItems item close fuel) := by
  induction fuel with
  | zero => exact fun _ _ _ h => by cases h
  | succ fuel ih =>
      intro s items rest h
      obtain ⟨⟨a, s'⟩, ha, h⟩ := bind_eq_ok h
      have hle := (length_skipWs s').trans_lt (hitem _ _ _ ha)
      dsimp only at h
      cases hs' : skipWs s' with
      | nil => rw [hs'] at h; cases h
      | cons c t =>
          rw [hs'] at h hle
          dsimp only at h
          have ht : t.length < s.length := (Nat.lt_succ_self _).trans hle
          split_ifs at h
          · obtain ⟨-, rfl⟩ := Prod.mk.inj (Except.ok.inj h)
            exact ht
          · obtain ⟨⟨as, s''⟩, has, h⟩ := bind_eq_ok h
            obtain ⟨-, rfl⟩ := Prod.mk.inj (Except.ok.inj h)
            exact ((ih _ _ _ has).trans_le (length_skipWs t)).trans ht

/-- **More fuel than characters changes nothing.** -/
theorem scanItems_fuel {s : Str} {fuel fuel' : ℕ} (h : s.length < fuel) (h' : s.length < fuel') :
    scanItems item close fuel s = scanItems item close fuel' s := by
  induction fuel generalizing s fuel' with
  | zero => omega
  | succ fuel ih =>
      obtain ⟨fuel', rfl⟩ : ∃ n, fuel' = n + 1 := ⟨fuel' - 1, by omega⟩
      unfold scanItems
      cases ha : item s with
      | error e => rfl
      | ok p =>
          obtain ⟨a, s'⟩ := p
          have hle := (length_skipWs s').trans_lt (hitem _ _ _ ha)
          cases hs' : skipWs s' with
          | nil => simp only [bind, Except.bind, hs']
          | cons c t =>
              rw [hs'] at hle
              have ht := (length_skipWs t).trans_lt ((Nat.lt_succ_self _).trans hle)
              simp only [bind, Except.bind, hs', ih (by omega : (skipWs t).length < fuel)
                (by omega : (skipWs t).length < fuel')]

theorem consumes_scanBrackets : Consumes (scanBrackets item close) := by
  intro s items rest h
  have hle := length_skipWs s
  unfold scanBrackets at h
  cases hs : skipWs s with
  | nil => rw [hs] at h; cases h
  | cons c t =>
      rw [hs] at h hle
      dsimp only at h
      split_ifs at h
      · obtain ⟨-, rfl⟩ := Prod.mk.inj (Except.ok.inj h)
        exact (Nat.lt_succ_self _).trans_le hle
      · exact (consumes_scanItems hitem close _ _ _ _ h).trans_le hle

/-- The brackets are read as if there were no bound. -/
theorem scanBrackets_fuel {s t : Str} {c : Char} {fuel : ℕ} (hs : skipWs s = c :: t) (hc : c ≠ close)
    (h : s.length < fuel) : scanBrackets item close s = scanItems item close fuel (c :: t) := by
  have hle := length_skipWs s
  unfold scanBrackets
  rw [hs] at hle ⊢
  dsimp only
  rw [if_neg hc]
  exact scanItems_fuel hitem close (Nat.lt_succ_self _) (hle.trans_lt h)

end Items

theorem consumes_scanMember {value : Scan Json} (hvalue : Consumes value) : Consumes (scanMember value) := by
  intro s a rest h
  unfold scanMember at h
  split at h
  · obtain ⟨⟨key, t⟩, hkey, h⟩ := bind_eq_ok h
    have hlt := (length_skipWs t).trans_lt (consumes_scanString _ _ _ hkey)
    dsimp only at h
    split at h
    · next u hu =>
        rw [hu] at hlt
        obtain ⟨⟨v, u'⟩, hv, h⟩ := bind_eq_ok h
        obtain ⟨-, rfl⟩ := Prod.mk.inj (Except.ok.inj h)
        refine ((hvalue _ _ _ hv).trans_le (length_skipWs u)).trans ?_
        exact ((Nat.lt_succ_self _).trans hlt).trans (Nat.lt_succ_self _)
    · cases h
  · cases h

theorem length_scanLiteral {c : Char} {s : Str} {value : Json} {rest : Str}
    (h : scanLiteral c s = .ok (value, rest)) : rest.length < (c :: s).length := by
  unfold scanLiteral at h
  split_ifs at h
  iterate 5 exact consumes_scanWord (by decide) _ _ _ h
  · obtain ⟨-, rfl⟩ := Prod.mk.inj (Except.ok.inj h)
    rw [List.length_drop, List.length_cons]
    omega
  · exact (consumes_scanNumber _ _ _ _ h).trans (Nat.lt_succ_self _)
  · exact consumes_scanNumber _ _ _ _ h

theorem consumes_scanOnce (depth : ℕ) : Consumes (scanOnce depth) := by
  induction depth with
  | zero =>
      rintro (_ | ⟨c, s⟩) value rest h
      · cases h
      · unfold scanOnce at h
        split_ifs at h
        · obtain ⟨text, htext, -⟩ := map_eq_ok (f := Json.str) h
          exact (consumes_scanString _ _ _ htext).trans (Nat.lt_succ_self _)
        · exact length_scanLiteral h
  | succ depth ih =>
      rintro (_ | ⟨c, s⟩) value rest h
      · cases h
      · unfold scanOnce at h
        split_ifs at h
        · obtain ⟨text, htext, -⟩ := map_eq_ok (f := Json.str) h
          exact (consumes_scanString _ _ _ htext).trans (Nat.lt_succ_self _)
        · obtain ⟨members, hmembers, -⟩ := map_eq_ok (f := Json.obj) h
          exact (consumes_scanBrackets (consumes_scanMember ih) _ _ _ _ hmembers).trans (Nat.lt_succ_self _)
        · obtain ⟨items, hitems, -⟩ := map_eq_ok (f := Json.arr) h
          exact (consumes_scanBrackets ih _ _ _ _ hitems).trans (Nat.lt_succ_self _)
        · exact length_scanLiteral h

/-- **Neither an array nor an object runs out of fuel.** -/
theorem scanOnce_fuel (depth : ℕ) {s t : Str} {c : Char} {fuel : ℕ} (hs : skipWs s = c :: t)
    (h : s.length < fuel) :
    (c ≠ ']' → scanOnce (depth + 1) ('[' :: s) =
      (scanItems (scanOnce depth) ']' fuel (c :: t)).map fun (items, s) => (.arr items, s)) ∧
    (c ≠ '}' → scanOnce (depth + 1) ('{' :: s) =
      (scanItems (scanMember (scanOnce depth)) '}' fuel (c :: t)).map fun (members, s) =>
        (.obj members, s)) := by
  refine ⟨fun hc => ?_, fun hc => ?_⟩
  · rw [← scanBrackets_fuel (consumes_scanOnce depth) ']' hs hc h]
    rfl
  · rw [← scanBrackets_fuel (consumes_scanMember (consumes_scanOnce depth)) '}' hs hc h]
    rfl

end Json
end PoetryGenerator
