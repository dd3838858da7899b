import IconConstraints.Text.WhiteSpace

/-!
# Tokens of Zig source

As much of Zig's tokens as generated switches are made of: words, numbers, strings without
escapes and marks, with blanks and comments between them.  The scanner takes one character
after the other and may look at what follows it.  A text scans to tokens of its own if it
leaves the scanner between two tokens, whatever comes after the text.
-/

namespace IconConstraints.Zig

inductive Token where
  | word (text : String)
  | number (text : String)
  | quoted (text : String)
  | ellipsis
  | arrow
  | mark (c : Char)
  deriving DecidableEq, Repr

/-- Where the scanner is between two characters; what it has of a token has the last one first. -/
inductive Scan where
  | gap
  | comment
  | word (soFar : List Char)
  | number (soFar : List Char)
  | quoted (soFar : List Char)
  | arrow
  | ellipsis (missing : Nat)
  deriving DecidableEq, Repr

def isWordChar (c : Char) : Bool :=
  c.isAlphanum || c == '_'

/-- A function of the compiler has a name that begins with `@`. -/
def beginsWord (c : Char) : Bool :=
  c.isAlpha || c == '_' || c == '@'

def isExponentMark (c : Char) : Bool :=
  c == 'e' || c == 'E' || c == 'p' || c == 'P'

/-- Whether a number goes on after its character `c`: with letters and digits, with a point that
one of them follows, or with the sign of an exponent. -/
def continuesNumber (c : Char) : List Char → Bool
  | [] => false
  | d :: rest =>
    isWordChar d || d == '.' && (rest.head?.map isWordChar).getD false ||
      isExponentMark c && (d == '+' || d == '-')

def wordSoFar (soFar rest : List Char) : Scan × List Token :=
  if (rest.head?.map isWordChar).getD false then (.word soFar, [])
  else (.gap, [.word (String.ofList soFar.reverse)])

def numberSoFar (c : Char) (before rest : List Char) : Scan × List Token :=
  if continuesNumber c rest then (.number (c :: before), [])
  else (.gap, [.number (String.ofList (c :: before).reverse)])

/-- The first character of a token, a gap or a comment. -/
def begin (c : Char) (rest : List Char) : Scan × List Token :=
  if c == ' ' || c == '\n' || c == '\t' || c == '\r' then (.gap, [])
  else if c == '/' && rest.head? == some '/' then (.comment, [])
  else if beginsWord c then wordSoFar [c] rest
  else if c.isDigit then numberSoFar c [] rest
  else if c == '"' then (.quoted [], [])
  else if c == '=' && rest.head? == some '>' then (.arrow, [])
  else if c == '.' && ['.', '.'].isPrefixOf rest then (.ellipsis 2, [])
  else (.gap, [.mark c])

/-- Takes the character `c`, with `rest` after it. -/
def Scan.next (c : Char) (rest : List Char) : Scan → Scan × List Token
  | .gap => begin c rest
  | .comment => (if c == '\n' then .gap else .comment, [])
  | .word soFar => wordSoFar (c :: soFar) rest
  | .number soFar => numberSoFar c soFar rest
  | .quoted soFar =>
    if c == '"' then (.gap, [.quoted (String.ofList soFar.reverse)]) else (.quoted (c :: soFar), [])
  | .arrow => (.gap, [.arrow])
  | .ellipsis missing => if missing ≤ 1 then (.gap, [.ellipsis]) else (.ellipsis (missing - 1), [])

def Scan.tokens : Scan → List Char → List Token
  | _, [] => []
  | s, c :: rest => (s.next c rest).2 ++ (s.next c rest).1.tokens rest

/-- The tokens of a whole text. -/
def tokens (source : String) : List Token :=
  Scan.gap.tokens source.toList

variable {c d : Char} {text a b : String} {ts us : List Token} {w rest : List Char}

/-! ## Texts with tokens of their own -/

def Scans (text : String) (ts : List Token) : Prop :=
  ∀ rest, Scan.gap.tokens (text.toList ++ rest) = ts ++ Scan.gap.tokens rest

namespace Scans

theorem nil : Scans "" [] :=
  fun _ => rfl

theorem append (ha : Scans a ts) (hb : Scans b us) : Scans (a ++ b) (ts ++ us) := by
  intro rest
  rw [String.toList_append, List.append_assoc, ha, hb, List.append_assoc]

theorem tokens_eq (h : Scans text ts) : tokens text = ts := by
  have htokens := h []
  rw [List.append_nil] at htokens
  rw [tokens, htokens]
  exact List.append_nil ts

end Scans

/-! ## Fixed texts -/

/-- The state after a text that `tail` follows. -/
def Scan.after (s : Scan) (tail : List Char) : List Char → Scan
  | [] => s
  | c :: w => (s.next c (w ++ tail)).1.after tail w

theorem next_blank (hd : d = ' ' ∨ d = '\n') (s : Scan) (c : Char) (w rest : List Char) :
    s.next c (w ++ d :: rest) = s.next c (w ++ [d]) := by
  obtain rfl | rfl := hd
  all_goals
    match w with
    | [] => cases s <;> rfl
    | [x] =>
        cases s <;>
          simp [Scan.next, begin, wordSoFar, numberSoFar, continuesNumber, List.isPrefixOf]
    | x :: y :: w => cases s <;> rfl

theorem tokens_blank {s : Scan} (hd : d = ' ' ∨ d = '\n')
    (hends : (s.after [d] w).next d [] = (.gap, [])) (rest : List Char) :
    s.tokens (w ++ d :: rest) = s.tokens (w ++ [d]) ++ Scan.gap.tokens rest := by
  induction w generalizing s with
  | nil =>
      simp only [Scan.after] at hends
      have hnext : s.next d rest = (.gap, []) := by
        -- Only a gap or a comment ends at a blank without a token.
        cases s with
        | gap => obtain rfl | rfl := hd <;> rfl
        | comment => obtain rfl | rfl := hd <;> first | rfl | cases hends
        | word soFar => simp [Scan.next, wordSoFar] at hends
        | number soFar => simp [Scan.next, numberSoFar, continuesNumber] at hends
        | quoted soFar => obtain rfl | rfl := hd <;> simp [Scan.next] at hends
        | arrow => cases hends
        | ellipsis missing =>
            simp only [Scan.next] at hends
            split at hends <;> cases hends
      simp only [List.nil_append, Scan.tokens, hnext, hends]
  | cons c w ih =>
      rw [List.cons_append, List.cons_append, Scan.tokens, Scan.tokens, next_blank hd s c w,
        ih hends, List.append_assoc]

theorem Scans.of_blank {cs : List Char} (hcs : text.toList = cs) (hd : d = ' ' ∨ d = '\n')
    (hscan : cs = cs.dropLast ++ [d] ∧ (Scan.gap.after [d] cs.dropLast).next d [] = (.gap, []) ∧
      Scan.gap.tokens cs = ts) : Scans text ts := by
  obtain ⟨hlast, hends, hts⟩ := hscan
  intro rest
  have htokens := tokens_blank hd hends rest
  rw [← hlast, hts] at htokens
  rw [hcs, hlast, List.append_assoc]
  exact htokens

/-! ## Comments -/

theorem tokens_comment (hw : '\n' ∉ w) (rest : List Char) :
    Scan.comment.tokens (w ++ '\n' :: rest) = Scan.gap.tokens rest := by
  induction w with
  | nil => rfl
  | cons c w ih =>
      simp only [List.mem_cons, not_or] at hw
      have hnext : Scan.comment.next c (w ++ '\n' :: rest) = (.comment, []) := by
        simp [Scan.next, Ne.symm hw.1]
      rw [List.cons_append, Scan.tokens, hnext]
      exact ih hw.2

theorem Scans.comment (htext : '\n' ∉ text.toList) : Scans ("//" ++ text ++ "\n") [] := by
  intro rest
  rw [String.toList_append, String.toList_append, List.append_assoc, List.append_assoc]
  exact tokens_comment (w := '/' :: text.toList) (by simp [htext]) rest

/-! ## Words -/

theorem tokens_wordSoFar (soFar rest : List Char) (hw : ∀ c ∈ w, isWordChar c = true)
    (hd : isWordChar d = false) :
    (wordSoFar soFar (w ++ d :: rest)).2 ++
        (wordSoFar soFar (w ++ d :: rest)).1.tokens (w ++ d :: rest) =
      .word (String.ofList (soFar.reverse ++ w)) :: Scan.gap.tokens (d :: rest) := by
  induction w generalizing soFar with
  | nil => simp [wordSoFar, hd]
  | cons c w ih =>
      have hnext : wordSoFar soFar (c :: w ++ d :: rest) = (.word soFar, []) := by
        simp [wordSoFar, hw c (by simp)]
      have hrest := ih (c :: soFar) fun x hx => hw x (by simp [hx])
      rw [List.reverse_cons, List.append_assoc] at hrest
      rw [hnext]
      exact hrest

theorem not_mem_of_all {p : Char → Bool} {cs : List Char} (hc : p c = true)
    (hcs : cs.all (fun x => !p x) = true) : c ∉ cs := by
  intro hmem
  have hfalse := List.all_eq_true.mp hcs c hmem
  simp [hc] at hfalse

theorem begin_word (hc : beginsWord c = true) (rest : List Char) :
    begin c rest = wordSoFar [c] rest := by
  have hvisible : c ∉ [' ', '\n', '\t', '\r', '/'] := not_mem_of_all hc (by decide)
  simp only [List.mem_cons, List.not_mem_nil, or_false, not_or] at hvisible
  simp [begin, hvisible, hc]

def isName (text : String) : Bool :=
  match text.toList with
  | [] => false
  | c :: w => beginsWord c && w.all isWordChar

theorem isName_toList (hname : isName text = true) :
    ∃ c w, text.toList = c :: w ∧ beginsWord c = true ∧ ∀ c ∈ w, isWordChar c = true := by
  unfold isName at hname
  split at hname
  case h_1 => cases hname
  case h_2 c w htext =>
    rw [Bool.and_eq_true, List.all_eq_true] at hname
    exact ⟨c, w, htext, hname⟩

theorem Scans.word (hname : isName text = true) (hb : b.toList = d :: w)
    (hd : isWordChar d = false) (h : Scans b ts) : Scans (text ++ b) (.word text :: ts) := by
  intro rest
  obtain ⟨c, u, htext, hc, hu⟩ := isName_toList hname
  have hword := tokens_wordSoFar [c] (w ++ rest) hu hd
  have hrest := h rest
  rw [hb] at hrest
  rw [String.toList_append, htext, hb, List.append_assoc, List.cons_append, Scan.tokens, Scan.next,
    begin_word hc]
  refine hword.trans ?_
  rw [← List.cons_append, hrest, List.reverse_singleton, List.singleton_append, ← htext,
    String.ofList_toList]
  rfl

/-- A point before a name, where the point cannot be the first of three. -/
theorem Scans.point {p q : String} (hp : p.toList = q.toList ++ ['.']) (hq : Scans q [])
    (hname : isName text = true) (h : Scans (text ++ b) ts) :
    Scans (p ++ (text ++ b)) (.mark '.' :: ts) := by
  intro rest
  obtain ⟨c, u, htext, hc, -⟩ := isName_toList hname
  have hpoint : ('.' == c) = false := by
    rw [beq_eq_false_iff_ne]
    rintro rfl
    cases hc
  have hbegin : Scan.gap.next '.' (c :: u ++ b.toList ++ rest) = (.gap, [.mark '.']) := by
    have hword : beginsWord '.' = false := rfl
    simp [Scan.next, begin, hword, List.isPrefixOf, hpoint]
  have hrest := h rest
  rw [String.toList_append, htext] at hrest
  rw [String.toList_append, String.toList_append, htext, hp, List.append_assoc, List.append_assoc,
    hq, List.singleton_append, Scan.tokens, hbegin, hrest]
  rfl

/-! ## Numbers -/

/-- Whether a number that begins the text goes on to its end. -/
def unbroken : List Char → Bool
  | [] => true
  | c :: rest => (rest.isEmpty || continuesNumber c rest) && unbroken rest

structure IsNumber (text : List Char) : Prop where
  begins : ∃ c w, text = c :: w ∧ c.isDigit = true
  unbroken : unbroken text = true

theorem continuesNumber_append (h : continuesNumber c w = true) (rest : List Char) :
    continuesNumber c (w ++ rest) = true := by
  match w with
  | [d] =>
      simp only [continuesNumber, List.head?_nil, Option.map_none, Option.getD_none, Bool.and_false,
        Bool.or_false, List.cons_append, Bool.or_eq_true] at h ⊢
      exact h.imp_left .inl
  | _ :: _ :: _ => exact h

theorem tokens_numberSoFar (before : List Char) (hw : unbroken (c :: w) = true)
    (hrest : ∀ c, continuesNumber c rest = false) :
    (numberSoFar c before (w ++ rest)).2 ++
        (numberSoFar c before (w ++ rest)).1.tokens (w ++ rest) =
      .number (String.ofList (before.reverse ++ c :: w)) :: Scan.gap.tokens rest := by
  induction w generalizing c before with
  | nil => simp [numberSoFar, hrest]
  | cons d w ih =>
      rw [unbroken, Bool.and_eq_true] at hw
      have hcontinues := continuesNumber_append (by simpa using hw.1) rest
      have hnext : numberSoFar c before (d :: w ++ rest) = (.number (c :: before), []) := by
        simp only [numberSoFar, hcontinues, if_true]
      have hlater := ih (c :: before) hw.2
      rw [List.reverse_cons, List.append_assoc] at hlater
      rw [hnext]
      exact hlater

theorem digit_cases (hc : c.isDigit = true) :
    c ∈ ['0', '1', '2', '3', '4', '5', '6', '7', '8', '9'] := by
  have hcode : 48 ≤ c.toNat ∧ c.toNat ≤ 57 := by
    simpa [Char.isDigit, UInt32.le_iff_toNat_le] using hc
  have hcases : c.toNat = 48 ∨ c.toNat = 49 ∨ c.toNat = 50 ∨ c.toNat = 51 ∨ c.toNat = 52 ∨
      c.toNat = 53 ∨ c.toNat = 54 ∨ c.toNat = 55 ∨ c.toNat = 56 ∨ c.toNat = 57 := by
    omega
  rw [← Char.ofNat_toNat c]
  obtain h | h | h | h | h | h | h | h | h | h := hcases <;> rw [h] <;> decide

theorem begin_digit (hc : c.isDigit = true) (rest : List Char) :
    begin c rest = numberSoFar c [] rest := by
  have hvisible : c ∉ [' ', '\n', '\t', '\r', '/'] := not_mem_of_all hc (by decide)
  have hword : beginsWord c = false := by
    have hall : ['0', '1', '2', '3', '4', '5', '6', '7', '8', '9'].all (!beginsWord ·) := by
      decide
    simpa using List.all_eq_true.mp hall c (digit_cases hc)
  simp only [List.mem_cons, List.not_mem_nil, or_false, not_or] at hvisible
  simp [begin, hvisible, hc, hword]

theorem Scans.number {n : List Char} (hn : IsNumber n)
    (hrest : ∀ c rest, continuesNumber c (a.toList ++ rest) = false) (h : Scans a ts) :
    Scans (String.ofList n ++ a) (.number (String.ofList n) :: ts) := by
  intro rest
  obtain ⟨⟨c, w, rfl, hc⟩, hunbroken⟩ := hn
  rw [String.toList_append, String.toList_ofList, List.cons_append, List.cons_append,
    List.append_assoc, Scan.tokens, Scan.next, begin_digit hc,
    tokens_numberSoFar [] hunbroken fun c => hrest c rest, h rest]
  rfl

end IconConstraints.Zig
