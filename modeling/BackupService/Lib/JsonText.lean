import BackupService.Lib.Json

/-!
JSON texts: how a value is written, without blanks, and how it is read.

A text is read in two passes. The first cuts it into tokens, one character
after the other, with a state for every place inside a string or a word that
a character can fall into. The second is a recursive descent over the
tokens; its fuel is the number of tokens, since every call takes one.

The reader accepts more than the writer writes: blanks, every escape, and
numbers that are not integers. `parse_print` says that a value that has been
written is read back as it was.
-/

namespace BackupService.Lib

inductive JsonToken
  | lbrace
  | rbrace
  | lbracket
  | rbracket
  | comma
  | colon
  | string (s : String)
  /-- `null`, `true`, `false`, or a number -/
  | scalar (j : Json)

namespace JsonText

/-! ### Words -/

/-- The characters of numbers and of `null`, `true` and `false`. -/
def wordChar (c : Char) : Bool := c.isAlphanum || c = '-' || c = '+' || c = '.'

/-- Digits, without zeros that could be left out. -/
def natural : List Char → Bool
  | [] => false
  | ['0'] => true
  | c :: cs => c ≠ '0' && (c :: cs).all Char.isDigit

/-- An integer; `-0` is none. -/
def integer : List Char → Option ℤ
  | '-' :: cs => if natural cs && cs ≠ ['0'] then some (-(Nat.ofDigitChars 10 cs 0 : ℤ)) else none
  | cs => if natural cs then some (Nat.ofDigitChars 10 cs 0) else none

def exponent : List Char → Bool
  | [] => true
  | c :: cs =>
      let digits := match cs with
        | '+' :: ds => ds
        | '-' :: ds => ds
        | ds => ds
      (c = 'e' || c = 'E') && digits ≠ [] && digits.all Char.isDigit

/-- A number, with or without a fraction and an exponent. -/
def number (cs : List Char) : Bool :=
  let unsigned := match cs with
    | '-' :: ds => ds
    | ds => ds
  let (whole, rest) := unsigned.span Char.isDigit
  natural whole && match rest with
    | '.' :: ds =>
        let (fraction, rest) := ds.span Char.isDigit
        fraction ≠ [] && exponent rest
    | rest => exponent rest

def ofWord (cs : List Char) : Option Json :=
  if cs = ['n', 'u', 'l', 'l'] then some .null
  else if cs = ['t', 'r', 'u', 'e'] then some (.bool true)
  else if cs = ['f', 'a', 'l', 's', 'e'] then some (.bool false)
  else match integer cs with
    | some n => some (.int n)
    | none => if number cs then some (.float (String.ofList cs)) else none

/-! ### Reading: the tokens -/

/-- Where in a text the next character falls; what has been read of a token
is kept with the last character first. -/
inductive LexState
  | between
  | word (read : List Char)
  | text (read : List Char)
  | escape (read : List Char)
  /-- In the four digits after `\u`: `n` of them have been read, with the
  value `v`, and `high` is the surrogate before them. -/
  | unicode (read : List Char) (high : Option ℕ) (n v : ℕ)
  /-- After a high surrogate, which must not be the last. -/
  | pair (read : List Char) (high : ℕ)
  | pairEscape (read : List Char) (high : ℕ)

def punctuation : Char → Option JsonToken
  | '{' => some .lbrace
  | '}' => some .rbrace
  | '[' => some .lbracket
  | ']' => some .rbracket
  | ',' => some .comma
  | ':' => some .colon
  | _ => none

/-- The characters that are written with a backslash and a letter. -/
def escapes : List (Char × Char) :=
  [('"', '"'), ('\\', '\\'), (Char.ofNat 8, 'b'), (Char.ofNat 12, 'f'), ('\n', 'n'), ('\r', 'r'),
    ('\t', 't')]

def hexDigit (c : Char) : Option ℕ :=
  if c.isDigit then some (c.toNat - 48)
  else if 97 ≤ c.toNat ∧ c.toNat ≤ 102 then some (c.toNat - 87)
  else if 65 ≤ c.toNat ∧ c.toNat ≤ 70 then some (c.toNat - 55)
  else none

namespace LexState

def stepBetween (c : Char) : Option (List JsonToken × LexState) :=
  if wordChar c then some ([], word [c])
  else if c = '"' then some ([], text [])
  else if c = ' ' ∨ c = '\n' ∨ c = '\t' ∨ c = '\r' then some ([], between)
  else (punctuation c).map fun t => ([t], between)

def stepEscape (read : List Char) (c : Char) : Option LexState :=
  if c = 'u' then some (unicode read none 0 0)
  else if c = '/' then some (text (c :: read))
  else (escapes.find? (·.2 = c)).map fun p => text (p.1 :: read)

/-- After the fourth digit. -/
def codeUnit (read : List Char) : Option ℕ → ℕ → Option LexState
  | none, v =>
      if 0xD800 ≤ v ∧ v < 0xDC00 then some (pair read v)
      else if 0xDC00 ≤ v ∧ v < 0xE000 then none
      else some (text (Char.ofNat v :: read))
  | some high, v =>
      if 0xDC00 ≤ v ∧ v < 0xE000 then
        some (text (Char.ofNat (0x10000 + (high - 0xD800) * 0x400 + (v - 0xDC00)) :: read))
      else none

def step : LexState → Char → Option (List JsonToken × LexState)
  | between, c => stepBetween c
  | word read, c =>
      if wordChar c then some ([], word (c :: read))
      else do
        let j ← ofWord read.reverse
        let (ts, st) ← stepBetween c
        return (.scalar j :: ts, st)
  | text read, c =>
      if c = '"' then some ([.string (String.ofList read.reverse)], between)
      else if c = '\\' then some ([], escape read)
      else if c.toNat < 32 then none
      else some ([], text (c :: read))
  | escape read, c => (stepEscape read c).map fun st => ([], st)
  | unicode read high n v, c => do
      let d ← hexDigit c
      if n < 3 then return ([], unicode read high (n + 1) (v * 16 + d))
      else (codeUnit read high (v * 16 + d)).map fun st => ([], st)
  | pair read high, c => if c = '\\' then some ([], pairEscape read high) else none
  | pairEscape read high, c => if c = 'u' then some ([], unicode read (some high) 0 0) else none

/-- At the end of the text. -/
def finish : LexState → Option (List JsonToken)
  | between => some []
  | word read => (ofWord read.reverse).map fun j => [.scalar j]
  | _ => none

end LexState

def lexFrom : LexState → List Char → Option (List JsonToken)
  | st, [] => st.finish
  | st, c :: cs => do
      let (ts, st) ← st.step c
      let rest ← lexFrom st cs
      return ts ++ rest

/-! ### Reading: the value -/

mutual

def value : ℕ → List JsonToken → Option (Json × List JsonToken)
  | _ + 1, .scalar j :: ts => some (j, ts)
  | _ + 1, .string s :: ts => some (.string s, ts)
  | _ + 1, .lbracket :: .rbracket :: ts => some (.array [], ts)
  | n + 1, .lbracket :: ts => do
      let (j, ts) ← value n ts
      let (js, ts) ← moreItems n ts
      return (.array (j :: js), ts)
  | _ + 1, .lbrace :: .rbrace :: ts => some (.object [], ts)
  | n + 1, .lbrace :: .string k :: .colon :: ts => do
      let (j, ts) ← value n ts
      let (ms, ts) ← moreMembers n ts
      return (.object ((k, j) :: ms), ts)
  | _, _ => none

/-- After an item of an array. -/
def moreItems : ℕ → List JsonToken → Option (List Json × List JsonToken)
  | _ + 1, .rbracket :: ts => some ([], ts)
  | n + 1, .comma :: ts => do
      let (j, ts) ← value n ts
      let (js, ts) ← moreItems n ts
      return (j :: js, ts)
  | _, _ => none

/-- After a member of an object. -/
def moreMembers : ℕ → List JsonToken → Option (List (String × Json) × List JsonToken)
  | _ + 1, .rbrace :: ts => some ([], ts)
  | n + 1, .comma :: .string k :: .colon :: ts => do
      let (j, ts) ← value n ts
      let (ms, ts) ← moreMembers n ts
      return ((k, j) :: ms, ts)
  | _, _ => none

end

/-- `serde_json::from_str::<Value>` -/
def parse (s : String) : Option Json := do
  let ts ← lexFrom .between s.toList
  match value ts.length ts with
  | some (j, []) => some j
  | _ => none

/-! ### Writing -/

mutual

def tokens : Json → List JsonToken
  | .string s => [.string s]
  | .array [] => [.lbracket, .rbracket]
  | .array (j :: js) => .lbracket :: (tokens j ++ itemTokens js)
  | .object [] => [.lbrace, .rbrace]
  | .object ((k, j) :: ms) => .lbrace :: .string k :: .colon :: (tokens j ++ memberTokens ms)
  | j => [.scalar j]

/-- The further items of an array, up to its end. -/
def itemTokens : List Json → List JsonToken
  | [] => [.rbracket]
  | j :: js => .comma :: (tokens j ++ itemTokens js)

def memberTokens : List (String × Json) → List JsonToken
  | [] => [.rbrace]
  | (k, j) :: ms => .comma :: .string k :: .colon :: (tokens j ++ memberTokens ms)

end

def escapeChar (c : Char) : List Char :=
  match escapes.lookup c with
  | some d => ['\\', d]
  | none =>
      if c.toNat < 32 then
        ['\\', 'u', '0', '0', Nat.digitChar (c.toNat / 16), Nat.digitChar (c.toNat % 16)]
      else [c]

def intText : ℤ → List Char
  | .ofNat n => Nat.toDigits 10 n
  | .negSucc n => '-' :: Nat.toDigits 10 (n + 1)

def wordText : Json → List Char
  | .null => ['n', 'u', 'l', 'l']
  | .bool true => ['t', 'r', 'u', 'e']
  | .bool false => ['f', 'a', 'l', 's', 'e']
  | .int n => intText n
  | .float literal => literal.toList
  | _ => []

def tokenText : JsonToken → List Char
  | .lbrace => ['{']
  | .rbrace => ['}']
  | .lbracket => ['[']
  | .rbracket => [']']
  | .comma => [',']
  | .colon => [':']
  | .string s => '"' :: (s.toList.flatMap escapeChar ++ ['"'])
  | .scalar j => wordText j

/-- `serde_json::to_string` -/
def print (j : Json) : String := String.ofList ((tokens j).flatMap tokenText)

/-! ### What is written can be read

Numbers that are not integers are copied from the literal; it has to be one. -/

mutual

def Valid : Json → Prop
  | .float literal =>
      (∀ c ∈ literal.toList, wordChar c) ∧ ofWord literal.toList = some (.float literal)
  | .array items => ValidItems items
  | .object members => ValidMembers members
  | _ => True

def ValidItems : List Json → Prop
  | [] => True
  | j :: js => Valid j ∧ ValidItems js

def ValidMembers : List (String × Json) → Prop
  | [] => True
  | (_, j) :: ms => Valid j ∧ ValidMembers ms

end

@[simp] theorem valid_string (s : String) : Valid (.string s) := trivial

@[simp] theorem valid_bool (b : Bool) : Valid (.bool b) := trivial

@[simp] theorem valid_int (n : ℤ) : Valid (.int n) := trivial

@[simp] theorem valid_object {ms : List (String × Json)} :
    Valid (.object ms) ↔ ValidMembers ms := Iff.rfl

@[simp] theorem validMembers_cons {k : String} {j : Json} {ms : List (String × Json)} :
    ValidMembers ((k, j) :: ms) ↔ Valid j ∧ ValidMembers ms := Iff.rfl

section Words

theorem wordChar_of_isDigit {c : Char} (h : c.isDigit = true) : wordChar c = true := by
  simp [wordChar, Char.isAlphanum, h]

theorem isDigit_toDigits (n : ℕ) : ∀ c ∈ Nat.toDigits 10 n, c.isDigit = true := by
  intro c hc
  exact Nat.isDigit_of_mem_toDigits (by decide) (by decide) hc

theorem digitChar_ne_zero : ∀ d < 10, d ≠ 0 → Nat.digitChar d ≠ '0' := by decide

theorem toDigits_head {n : ℕ} (hn : n ≠ 0) : ∃ c cs, Nat.toDigits 10 n = c :: cs ∧ c ≠ '0' := by
  induction n using Nat.strongRecOn with
  | ind n ih =>
      by_cases hlt : n < 10
      · exact ⟨_, [], Nat.toDigits_of_lt_base hlt, digitChar_ne_zero n hlt hn⟩
      · obtain ⟨c, cs, hcs, hc⟩ := ih (n / 10) (by omega) (by omega)
        refine ⟨c, cs ++ [Nat.digitChar (n % 10)], ?_, hc⟩
        rw [Nat.toDigits_of_base_le (by decide) (by omega), hcs]
        rfl

theorem natural_of_head {c : Char} {cs : List Char} (hc : c ≠ '0')
    (hdigits : ∀ d ∈ c :: cs, d.isDigit = true) : natural (c :: cs) = true := by
  unfold natural
  split
  · next heq => cases heq
  · next heq => exact absurd (List.cons.inj heq).1 hc
  · next heq =>
      obtain ⟨rfl, rfl⟩ := List.cons.inj heq
      rw [Bool.and_eq_true]
      exact ⟨decide_eq_true hc, List.all_eq_true.mpr hdigits⟩

/-- No zero that could be left out is written. -/
theorem natural_toDigits (n : ℕ) : natural (Nat.toDigits 10 n) = true := by
  by_cases hn : n = 0
  · subst hn
    rfl
  · obtain ⟨c, cs, hcs, hc⟩ := toDigits_head hn
    have hdigits := isDigit_toDigits n
    rw [hcs] at hdigits ⊢
    exact natural_of_head hc hdigits

theorem integer_toDigits (n : ℕ) : integer (Nat.toDigits 10 n) = some (n : ℤ) := by
  have hdigits := isDigit_toDigits n
  unfold integer
  split
  · next heq =>
      rw [heq] at hdigits
      exact absurd (hdigits '-' List.mem_cons_self) (by decide)
  · rw [if_pos (natural_toDigits n), Nat.ofDigitChars_ten_toDigits]

theorem integer_intText (n : ℤ) : integer (intText n) = some n := by
  cases n with
  | ofNat n => exact integer_toDigits n
  | negSucc n =>
      have hne : Nat.toDigits 10 (n + 1) ≠ ['0'] := by
        intro h
        have hvalue : Nat.ofDigitChars 10 (Nat.toDigits 10 (n + 1)) 0 = n + 1 :=
          Nat.ofDigitChars_ten_toDigits
        rw [h] at hvalue
        exact absurd hvalue.symm (Nat.succ_ne_zero n)
      have hword : (natural (Nat.toDigits 10 (n + 1)) &&
          decide (Nat.toDigits 10 (n + 1) ≠ ['0'])) = true := by
        rw [natural_toDigits, decide_eq_true hne]
        rfl
      show (if natural (Nat.toDigits 10 (n + 1)) && Nat.toDigits 10 (n + 1) ≠ ['0'] then
        some (-(Nat.ofDigitChars 10 (Nat.toDigits 10 (n + 1)) 0 : ℤ)) else none) = _
      rw [if_pos hword, Nat.ofDigitChars_ten_toDigits]
      rfl

theorem wordChar_intText (n : ℤ) : ∀ c ∈ intText n, wordChar c = true := by
  cases n with
  | ofNat n => exact fun c hc => wordChar_of_isDigit (isDigit_toDigits n c hc)
  | negSucc n =>
      refine List.forall_mem_cons.mpr ⟨rfl, fun c hc => ?_⟩
      exact wordChar_of_isDigit (isDigit_toDigits _ c hc)

theorem ofWord_of_integer {cs : List Char} {n : ℤ} (h : integer cs = some n) :
    ofWord cs = some (.int n) := by
  have hnot : ∀ word, integer word = none → cs ≠ word := by
    rintro word hword rfl
    rw [hword] at h
    cases h
  rw [ofWord, if_neg (hnot _ (by decide)), if_neg (hnot _ (by decide)), if_neg (hnot _ (by decide)), h]

/-- A value that is a single word. -/
def Word (j : Json) : Prop := tokens j = [.scalar j]

theorem wordChar_wordText {j : Json} (hvalid : Valid j) : ∀ c ∈ wordText j, wordChar c = true := by
  cases j with
  | null => exact List.all_eq_true.mp rfl
  | bool b => cases b <;> exact List.all_eq_true.mp rfl
  | int n => exact wordChar_intText n
  | float literal =>
      rw [Valid] at hvalid
      exact hvalid.1
  | string | array | object => exact fun c hc => absurd hc List.not_mem_nil

theorem ofWord_wordText {j : Json} (hj : Word j) (hvalid : Valid j) :
    ofWord (wordText j) = some j := by
  cases j with
  | null => rfl
  | bool b => cases b <;> rfl
  | int n => exact ofWord_of_integer (integer_intText n)
  | float literal =>
      rw [Valid] at hvalid
      exact hvalid.2
  | string s => cases hj
  | array items => cases items <;> cases hj
  | object members => rcases members with _ | ⟨⟨k, j⟩, ms⟩ <;> cases hj

end Words

/-! ### The tokens are found again -/

section Lex

variable {st st' : LexState} {c : Char} {cs : List Char} {ts : List JsonToken}

theorem lexFrom_step (h : st.step c = some (ts, st')) :
    lexFrom st (c :: cs) = (lexFrom st' cs).map (ts ++ ·) := by
  simp only [lexFrom, h, Option.bind_eq_bind, Option.bind_some]
  cases lexFrom st' cs <;> rfl

theorem lexFrom_silent (st' : LexState) (h : st.step c = some ([], st')) :
    lexFrom st (c :: cs) = lexFrom st' cs := by
  rw [lexFrom_step h]
  exact Option.map_id'

theorem hexDigit_digitChar : ∀ d < 16, hexDigit (Nat.digitChar d) = some d := by decide

theorem stepEscape_escapes (read : List Char) : ∀ p ∈ escapes,
    LexState.stepEscape read p.2 = some (.text (p.1 :: read)) := by
  simp only [escapes, List.forall_mem_cons]
  exact ⟨rfl, rfl, rfl, rfl, rfl, rfl, rfl, fun p hp => absurd hp List.not_mem_nil⟩

/-- A control character comes back from its four digits. -/
theorem lexFrom_control {c : Char} (h : c.toNat < 32) (read cs : List Char) :
    lexFrom (.unicode read none 0 0)
        ('0' :: '0' :: Nat.digitChar (c.toNat / 16) :: Nat.digitChar (c.toNat % 16) :: cs) =
      lexFrom (.text (c :: read)) cs := by
  have hhigh := hexDigit_digitChar (c.toNat / 16) (by omega)
  have hlow := hexDigit_digitChar (c.toNat % 16) (by omega)
  have hvalue : c.toNat / 16 * 16 + c.toNat % 16 = c.toNat := by omega
  rw [lexFrom_silent (.unicode read none 1 0) rfl,
    lexFrom_silent (.unicode read none 2 0) rfl,
    lexFrom_silent (.unicode read none 3 (c.toNat / 16))]
  · refine lexFrom_silent _ ?_
    simp only [LexState.step, hlow, hvalue, LexState.codeUnit, Char.ofNat_toNat, Option.bind_eq_bind,
      Option.bind_some, Nat.lt_irrefl, if_false]
    rw [if_neg (by omega), if_neg (by omega)]
    rfl
  · simp only [LexState.step, hhigh, Option.bind_eq_bind, Option.bind_some, Nat.zero_mul,
      Nat.zero_add]
    rfl

/-- An escaped character is read as the character. -/
theorem lexFrom_escapeChar (read : List Char) (c : Char) (cs : List Char) :
    lexFrom (.text read) (escapeChar c ++ cs) = lexFrom (.text (c :: read)) cs := by
  unfold escapeChar
  split
  · next d hd =>
      have hmem : (c, d) ∈ escapes := by
        obtain ⟨before, after, hsplit, -⟩ := List.lookup_eq_some_iff.mp hd
        rw [hsplit]
        exact List.mem_append_right _ List.mem_cons_self
      rw [List.cons_append, List.cons_append, List.nil_append,
        lexFrom_silent (.escape read) rfl]
      exact lexFrom_silent _ (congrArg (Option.map _) (stepEscape_escapes read _ hmem))
  · next hd =>
      split
      · next h =>
          simp only [List.cons_append, List.nil_append]
          rw [lexFrom_silent (.escape read) rfl,
            lexFrom_silent (.unicode read none 0 0) rfl]
          exact lexFrom_control h read cs
      · next h =>
          have hquote : c ≠ '"' := by
            rintro rfl
            cases hd
          have hslash : c ≠ '\\' := by
            rintro rfl
            cases hd
          refine lexFrom_silent _ ?_
          simp only [LexState.step, if_neg hquote, if_neg hslash, if_neg h]

theorem lexFrom_escaped (read s cs : List Char) :
    lexFrom (.text read) (s.flatMap escapeChar ++ '"' :: cs) =
      (lexFrom .between cs).map ([.string (String.ofList (read.reverse ++ s))] ++ ·) := by
  induction s generalizing read with
  | nil =>
      rw [List.append_nil]
      exact lexFrom_step rfl
  | cons c s ih =>
      rw [List.flatMap_cons, List.append_assoc, lexFrom_escapeChar, ih, List.reverse_cons,
        List.append_assoc, List.singleton_append]

theorem lexFrom_string (s : String) (cs : List Char) :
    lexFrom .between (tokenText (.string s) ++ cs) =
      (lexFrom .between cs).map ([.string s] ++ ·) := by
  rw [tokenText, List.cons_append, List.append_assoc, List.singleton_append,
    lexFrom_silent (.text []) rfl, lexFrom_escaped, List.reverse_nil, List.nil_append,
    String.ofList_toList]

/-- A word does not go on here. -/
def Delimited (cs : List Char) : Prop := ∀ c rest, cs = c :: rest → wordChar c = false

theorem lexFrom_word {j : Json} (read : List Char) (hread : ofWord read.reverse = some j)
    (hcs : Delimited cs) :
    lexFrom (.word read) cs = (lexFrom .between cs).map ([.scalar j] ++ ·) := by
  cases cs with
  | nil =>
      show (ofWord read.reverse).map _ = _
      rw [hread]
      rfl
  | cons c cs =>
      have hc := hcs c cs rfl
      cases hstep : LexState.stepBetween c with
      | none =>
          have hbetween : LexState.step .between c = none := hstep
          have hword : LexState.step (.word read) c = none := by
            simp [LexState.step, hc, hread, hstep]
          rw [lexFrom, lexFrom, hbetween, hword]
          rfl
      | some p =>
          obtain ⟨ts, st⟩ := p
          have hbetween : LexState.step .between c = some (ts, st) := hstep
          have hword : LexState.step (.word read) c = some (.scalar j :: ts, st) := by
            simp [LexState.step, hc, hread, hstep]
          rw [lexFrom_step hbetween, lexFrom_step hword, Option.map_map]
          rfl

theorem lexFrom_wordChars (read : List Char) {w : List Char} (hw : ∀ c ∈ w, wordChar c = true) :
    lexFrom (.word read) (w ++ cs) = lexFrom (.word (w.reverse ++ read)) cs := by
  induction w generalizing read with
  | nil => rfl
  | cons c w ih =>
      obtain ⟨hc, hw⟩ := List.forall_mem_cons.mp hw
      have hstep : LexState.step (.word read) c = some ([], .word (c :: read)) := if_pos hc
      rw [List.cons_append, lexFrom_silent _ hstep, ih _ hw, List.reverse_cons, List.append_assoc,
        List.singleton_append]

theorem lexFrom_scalar {j : Json} (hj : Word j) (hvalid : Valid j) (hcs : Delimited cs) :
    lexFrom .between (wordText j ++ cs) = (lexFrom .between cs).map ([.scalar j] ++ ·) := by
  have hchars := wordChar_wordText hvalid
  have hword := ofWord_wordText hj hvalid
  generalize wordText j = w at hchars hword
  cases w with
  | nil => cases hword
  | cons c w =>
      obtain ⟨hc, hw⟩ := List.forall_mem_cons.mp hchars
      have hstep : LexState.step .between c = some ([], .word [c]) := if_pos hc
      rw [List.cons_append, lexFrom_silent _ hstep, lexFrom_wordChars _ hw]
      refine lexFrom_word _ ?_ hcs
      rw [List.reverse_append, List.reverse_reverse]
      exact hword

end Lex

section Tokens

variable {cs : List Char}

/-- The texts of the tokens, one after the other. -/
def written (ts : List JsonToken) : List Char := ts.flatMap tokenText

theorem written_append (ts ts' : List JsonToken) :
    written (ts ++ ts') = written ts ++ written ts' := List.flatMap_append

theorem delimited_nil : Delimited [] := fun _ _ h => by cases h

theorem delimited_itemTokens (js : List Json) (cs : List Char) :
    Delimited (written (itemTokens js) ++ cs) := by
  cases js with
  | nil =>
      rintro c rest ⟨⟩
      rfl
  | cons j js =>
      rintro c rest ⟨⟩
      rfl

theorem delimited_memberTokens (ms : List (String × Json)) (cs : List Char) :
    Delimited (written (memberTokens ms) ++ cs) := by
  cases ms with
  | nil =>
      rintro c rest ⟨⟩
      rfl
  | cons m ms =>
      rintro c rest ⟨⟩
      rfl

/-- The tokens are read, and then it goes on with `cs`. -/
def Lexes (ts : List JsonToken) (cs : List Char) : Prop :=
  lexFrom .between (written ts ++ cs) = (lexFrom .between cs).map (ts ++ ·)

theorem Lexes.append {ts ts' : List JsonToken} (hts : Lexes ts (written ts' ++ cs))
    (hts' : Lexes ts' cs) : Lexes (ts ++ ts') cs := by
  rw [Lexes] at hts hts' ⊢
  rw [written_append, List.append_assoc, hts, hts', Option.map_map]
  exact congrArg (Option.map · _) (funext fun _ => (List.append_assoc ..).symm)

theorem Lexes.cons {t : JsonToken} {ts : List JsonToken} (ht : Lexes [t] (written ts ++ cs))
    (hts : Lexes ts cs) : Lexes (t :: ts) cs := ht.append hts

theorem written_singleton (t : JsonToken) : written [t] = tokenText t := List.append_nil _

theorem lexes_punctuation {t : JsonToken} {c : Char} (htext : tokenText t = [c])
    (hstep : LexState.stepBetween c = some ([t], .between)) : Lexes [t] cs := by
  rw [Lexes, written_singleton, htext]
  exact lexFrom_step hstep

theorem lexes_string (s : String) : Lexes [.string s] cs := by
  rw [Lexes, written_singleton]
  exact lexFrom_string s cs

theorem lexes_scalar {j : Json} (hj : Word j) (hvalid : Valid j) (hcs : Delimited cs) :
    Lexes [.scalar j] cs := by
  rw [Lexes, written_singleton]
  exact lexFrom_scalar hj hvalid hcs

mutual

theorem lexes_tokens : (j : Json) → Valid j → ∀ cs, Delimited cs → Lexes (tokens j) cs
  | .null, h, _, hcs | .bool _, h, _, hcs | .int _, h, _, hcs | .float _, h, _, hcs =>
      lexes_scalar rfl h hcs
  | .string s, _, _, _ => lexes_string s
  | .array [], _, cs, _ => by
      rw [tokens]
      exact .cons (lexes_punctuation rfl rfl) (lexes_punctuation rfl rfl)
  | .array (j :: js), h, cs, _ => by
      rw [Valid, ValidItems] at h
      have hitem := lexes_tokens j h.1 _ (delimited_itemTokens js cs)
      exact .cons (lexes_punctuation rfl rfl) (hitem.append (lexes_itemTokens js h.2 cs))
  | .object [], _, cs, _ => by
      rw [tokens]
      exact .cons (lexes_punctuation rfl rfl) (lexes_punctuation rfl rfl)
  | .object ((k, j) :: ms), h, cs, _ => by
      rw [Valid, ValidMembers] at h
      have hmember := lexes_tokens j h.1 _ (delimited_memberTokens ms cs)
      exact .cons (lexes_punctuation rfl rfl) (.cons (lexes_string k)
        (.cons (lexes_punctuation rfl rfl) (hmember.append (lexes_memberTokens ms h.2 cs))))

theorem lexes_itemTokens : (js : List Json) → ValidItems js → ∀ cs, Lexes (itemTokens js) cs
  | [], _, _ => lexes_punctuation rfl rfl
  | j :: js, h, cs => by
      rw [ValidItems] at h
      have hitem := lexes_tokens j h.1 _ (delimited_itemTokens js cs)
      exact .cons (lexes_punctuation rfl rfl) (hitem.append (lexes_itemTokens js h.2 cs))

theorem lexes_memberTokens : (ms : List (String × Json)) → ValidMembers ms →
    ∀ cs, Lexes (memberTokens ms) cs
  | [], _, _ => lexes_punctuation rfl rfl
  | (k, j) :: ms, h, cs => by
      rw [ValidMembers] at h
      have hmember := lexes_tokens j h.1 _ (delimited_memberTokens ms cs)
      exact .cons (lexes_punctuation rfl rfl) (.cons (lexes_string k)
        (.cons (lexes_punctuation rfl rfl) (hmember.append (lexes_memberTokens ms h.2 cs))))

end

end Tokens

/-! ### The value is found again -/

section Value

theorem tokens_ne_rbracket (j : Json) (ts rest : List JsonToken) :
    tokens j ++ ts ≠ .rbracket :: rest := by
  cases j with
  | null | bool | int | float | string => exact fun h => by cases h
  | array items =>
      cases items <;> exact fun h => by cases h
  | object members =>
      rcases members with _ | ⟨⟨k, j⟩, ms⟩ <;> exact fun h => by cases h

theorem length_tokens_pos (j : Json) : 0 < (tokens j).length := by
  cases j with
  | null | bool | int | float | string => exact Nat.zero_lt_one
  | array items => cases items <;> exact Nat.zero_lt_succ _
  | object members => rcases members with _ | ⟨⟨k, j⟩, ms⟩ <;> exact Nat.zero_lt_succ _

theorem value_lbracket {n : ℕ} {ts ts' ts'' : List JsonToken} {j : Json} {js : List Json}
    (hts : ∀ rest, ts ≠ .rbracket :: rest) (hj : value n ts = some (j, ts'))
    (hjs : moreItems n ts' = some (js, ts'')) :
    value (n + 1) (.lbracket :: ts) = some (.array (j :: js), ts'') := by
  rw [value]
  · rw [hj, Option.bind_eq_bind, Option.bind_some]
    dsimp only
    rw [hjs]
    rfl
  · exact hts

theorem moreItems_comma {n : ℕ} {ts ts' ts'' : List JsonToken} {j : Json} {js : List Json}
    (hj : value n ts = some (j, ts')) (hjs : moreItems n ts' = some (js, ts'')) :
    moreItems (n + 1) (.comma :: ts) = some (j :: js, ts'') := by
  rw [moreItems, hj, Option.bind_eq_bind, Option.bind_some]
  dsimp only
  rw [hjs]
  rfl

theorem value_lbrace {n : ℕ} {k : String} {ts ts' ts'' : List JsonToken} {j : Json}
    {ms : List (String × Json)} (hj : value n ts = some (j, ts'))
    (hms : moreMembers n ts' = some (ms, ts'')) :
    value (n + 1) (.lbrace :: .string k :: .colon :: ts) = some (.object ((k, j) :: ms), ts'') := by
  rw [value, hj, Option.bind_eq_bind, Option.bind_some]
  dsimp only
  rw [hms]
  rfl

theorem moreMembers_comma {n : ℕ} {k : String} {ts ts' ts'' : List JsonToken} {j : Json}
    {ms : List (String × Json)} (hj : value n ts = some (j, ts'))
    (hms : moreMembers n ts' = some (ms, ts'')) :
    moreMembers (n + 1) (.comma :: .string k :: .colon :: ts) = some ((k, j) :: ms, ts'') := by
  rw [moreMembers, hj, Option.bind_eq_bind, Option.bind_some]
  dsimp only
  rw [hms]
  rfl

mutual

theorem value_tokens : (j : Json) → ∀ n rest, (tokens j).length ≤ n →
    value n (tokens j ++ rest) = some (j, rest)
  | j, 0, rest, h => absurd (length_tokens_pos j) (Nat.not_lt.mpr h)
  | .null, n + 1, _, _ | .bool _, n + 1, _, _ | .int _, n + 1, _, _ | .float _, n + 1, _, _
  | .string _, n + 1, _, _ | .array [], n + 1, _, _ | .object [], n + 1, _, _ => rfl
  | .array (j :: js), n + 1, rest, h => by
      rw [tokens, List.length_cons, List.length_append] at h
      rw [tokens, List.cons_append, List.append_assoc]
      exact value_lbracket (tokens_ne_rbracket j _) (value_tokens j n _ (by omega))
        (moreItems_itemTokens js n rest (by omega))
  | .object ((k, j) :: ms), n + 1, rest, h => by
      simp only [tokens, List.length_cons, List.length_append] at h
      rw [tokens, List.cons_append, List.cons_append, List.cons_append, List.append_assoc]
      exact value_lbrace (value_tokens j n _ (by omega))
        (moreMembers_memberTokens ms n rest (by omega))

theorem moreItems_itemTokens : (js : List Json) → ∀ n rest, (itemTokens js).length ≤ n →
    moreItems n (itemTokens js ++ rest) = some (js, rest)
  | [], n + 1, _, _ => rfl
  | j :: js, n + 1, rest, h => by
      rw [itemTokens, List.length_cons, List.length_append] at h
      rw [itemTokens, List.cons_append, List.append_assoc]
      exact moreItems_comma (value_tokens j n _ (by omega))
        (moreItems_itemTokens js n rest (by omega))
  | [], 0, _, h | _ :: _, 0, _, h => absurd h (Nat.not_succ_le_zero _)

theorem moreMembers_memberTokens : (ms : List (String × Json)) → ∀ n rest,
    (memberTokens ms).length ≤ n → moreMembers n (memberTokens ms ++ rest) = some (ms, rest)
  | [], n + 1, _, _ => rfl
  | (k, j) :: ms, n + 1, rest, h => by
      simp only [memberTokens, List.length_cons, List.length_append] at h
      rw [memberTokens, List.cons_append, List.cons_append, List.cons_append, List.append_assoc]
      exact moreMembers_comma (value_tokens j n _ (by omega))
        (moreMembers_memberTokens ms n rest (by omega))
  | [], 0, _, h | (_, _) :: _, 0, _, h => absurd h (Nat.not_succ_le_zero _)

end

end Value

/-- **What is written is read back as it was.** -/
theorem parse_print {j : Json} (hvalid : Valid j) : parse (print j) = some j := by
  have hlex : lexFrom .between (written (tokens j)) = some (tokens j) := by
    have hlexes := lexes_tokens j hvalid [] delimited_nil
    rw [Lexes, List.append_nil] at hlexes
    rw [hlexes]
    exact congrArg some (List.append_nil _)
  have hvalue := value_tokens j (tokens j).length [] (Nat.le_refl _)
  rw [List.append_nil] at hvalue
  rw [parse, print, String.toList_ofList, ← written, hlex, Option.bind_eq_bind, Option.bind_some,
    hvalue]

end JsonText

end BackupService.Lib
