import Mathlib.Data.List.Basic

/-!
# Command lines of the POSIX shell

How the shell cuts a line into tokens, and what a line that is one simple command runs.

* `tokensFrom` is token recognition with quoting.  An expansion that is written with `$`,
  a backquote or a tilde is a token of its own, and the line is not read on behind it.
* `simpleCommand` gives the arguments of a line of words.  What pathname expansion
  finds is a parameter (`Globbing`).
* `simpleCommand_iff` says when the line that is made of a name, a blank and a text
  passes the text on as it is.
-/

namespace NetLabs.Lib.Shell

/-! ## Bytes -/

def isBlank (b : UInt8) : Bool := [9, 32].contains b

/-- A newline, or `&`, `(`, `)`, `;`, `<`, `>`, `|`. -/
def isOperator (b : UInt8) : Bool := [10, 38, 40, 41, 59, 60, 62, 124].contains b

/-- `$` and the backquote. -/
def isExpansion (b : UInt8) : Bool := [36, 96].contains b

/-- The double quote, the single quote and the backslash. -/
def isQuote (b : UInt8) : Bool := [34, 39, 92].contains b

/-- `*`, `?` and `[`. -/
def isPattern (b : UInt8) : Bool := [42, 63, 91].contains b

/-- A byte that stands for itself inside a word, or is a part of a pattern. -/
def isOrdinary (b : UInt8) : Bool := !(isBlank b || isOperator b || isExpansion b || isQuote b)

/-! ## Words and tokens -/

structure WordByte where
  byte : UInt8
  quoted : Bool
  deriving DecidableEq, Repr

abbrev Word := List WordByte

/-- The bytes that are left when the quotes are removed. -/
def Word.bytes (w : Word) : List UInt8 := w.map WordByte.byte

def Word.hasPattern (w : Word) : Bool := w.any fun c => !c.quoted && isPattern c.byte

/-- A word without quotes. -/
def unquoted (s : List UInt8) : Word := s.map (⟨·, false⟩)

inductive Token where
  | word (w : Word)
  /-- One byte of an operator, or a newline. -/
  | operator (b : UInt8)
  | expansion
  /-- The line ends behind a backslash or before the closing quote. -/
  | unfinished
  deriving DecidableEq, Repr

/-- Where the reader of a line is.  `none` stands for no word at all, which is not the
empty word. -/
inductive Mode where
  | gap
  | word (w : Word)
  | backslash (current : Option Word)
  | single (w : Word)
  | double (w : Word)
  | doubleBackslash (w : Word)
  | comment
  deriving DecidableEq, Repr

namespace Mode

/-- A byte that belongs to a word, or starts one. -/
def enter (current : Option Word) (b : UInt8) : Mode :=
  if b = 92 then .backslash current
  else if b = 39 then .single (current.getD [])
  else if b = 34 then .double (current.getD [])
  else .word (current.getD [] ++ [⟨b, false⟩])

/-- Back from a line that goes on in the next one. -/
def resume : Option Word → Mode
  | none => .gap
  | some w => .word w

/-- The number of bytes that a word has so far. -/
def length : Mode → Nat
  | gap | comment | backslash none => 0
  | word w | single w | double w | backslash (some w) => w.length
  -- the backslash may still turn out to stand for itself
  | doubleBackslash w => w.length + 1

end Mode

/-- Token recognition from the middle of a line on. -/
def tokensFrom : Mode → List UInt8 → List Token
  | .gap, [] | .comment, [] => []
  | .word w, [] => [.word w]
  | .backslash _, [] | .single _, [] | .double _, [] | .doubleBackslash _, [] => [.unfinished]
  | .gap, b :: line =>
    if isBlank b then tokensFrom .gap line
    else if isOperator b then .operator b :: tokensFrom .gap line
    else if b = 35 then tokensFrom .comment line
    else if isExpansion b || b = 126 then [.expansion]
    else tokensFrom (.enter none b) line
  | .word w, b :: line =>
    if isBlank b then .word w :: tokensFrom .gap line
    else if isOperator b then .word w :: .operator b :: tokensFrom .gap line
    else if isExpansion b then [.expansion]
    else tokensFrom (.enter (some w) b) line
  | .backslash current, b :: line =>
    if b = 10 then tokensFrom (.resume current) line
    else tokensFrom (.word (current.getD [] ++ [⟨b, true⟩])) line
  | .single w, b :: line =>
    if b = 39 then tokensFrom (.word w) line
    else tokensFrom (.single (w ++ [⟨b, true⟩])) line
  | .double w, b :: line =>
    if b = 34 then tokensFrom (.word w) line
    else if isExpansion b then [.expansion]
    else if b = 92 then tokensFrom (.doubleBackslash w) line
    else tokensFrom (.double (w ++ [⟨b, true⟩])) line
  | .doubleBackslash w, b :: line =>
    if b = 10 then tokensFrom (.double w) line
    else if isExpansion b || b = 34 || b = 92 then tokensFrom (.double (w ++ [⟨b, true⟩])) line
    -- in front of any other byte the backslash is not special
    else tokensFrom (.double (w ++ [⟨92, true⟩, ⟨b, true⟩])) line
  | .comment, b :: line =>
    if b = 10 then .operator b :: tokensFrom .gap line
    else tokensFrom .comment line

/-- The tokens of a line. -/
def tokens (line : List UInt8) : List Token := tokensFrom .gap line

/-! ## Simple commands -/

/-- What pathname expansion makes of a word with a pattern in it.  A pattern that
matches nothing stands for itself, so that there is always a field. -/
structure Globbing where
  expand : Word → List (List UInt8)
  expand_ne_nil : ∀ w, expand w ≠ []

/-- The words of a list of tokens that has nothing else in it. -/
def wordsOf : List Token → Option (List Word)
  | [] => some []
  | .word w :: ts => (wordsOf ts).map (w :: ·)
  | .operator _ :: _ | .expansion :: _ | .unfinished :: _ => none

def reservedWords : List String :=
  ["!", "\x7b", "\x7d", "case", "do", "done", "elif", "else", "esac", "fi", "for", "if", "in",
    "then", "until", "while"]

/-- A first word that names a command: it is no reserved word, and no assignment, as
there is no `=` in it. -/
def Word.names (w : Word) : Bool :=
  !(reservedWords.any fun r => w = unquoted (r.toList.map fun ch => UInt8.ofNat ch.toNat)) &&
    !(w.any fun c => c.byte = 61)

namespace Globbing

variable (g : Globbing)

/-- The fields that a word gives. -/
def fields (w : Word) : List (List UInt8) := if w.hasPattern then g.expand w else [w.bytes]

/-- The name and the arguments of the one command that the line runs.  `none` when the
line is anything else than a list of words. -/
def simpleCommand (line : List UInt8) : Option (List (List UInt8)) :=
  match wordsOf (tokens line) with
  | some (w :: ws) => if w.names then some ((w :: ws).flatMap g.fields) else none
  | _ => none

/-- The text is a word that stands for itself: no byte of it is special, or it has a
pattern in it that is expanded to the text alone. -/
def Literal (text : List UInt8) : Prop :=
  (∀ b ∈ text, isOrdinary b = true ∧ isPattern b = false) ∨
    ∃ w, tokens text = [.word w] ∧ w.hasPattern = true ∧ g.expand w = [text]

end Globbing

/-! ## Ordinary bytes -/

theorem bytes_unquoted (s : List UInt8) : (unquoted s).bytes = s := by
  rw [Word.bytes, unquoted, List.map_map]
  exact List.map_id s

theorem hasPattern_unquoted {s : List UInt8} :
    (unquoted s).hasPattern = true ↔ ∃ b ∈ s, isPattern b = true := by
  simp [Word.hasPattern, unquoted]

theorem isOrdinary_iff {b : UInt8} : isOrdinary b = true ↔
    isBlank b = false ∧ isOperator b = false ∧ isExpansion b = false ∧ isQuote b = false := by
  simp [isOrdinary, and_assoc]

theorem isQuote_iff {b : UInt8} : isQuote b = true ↔ b = 92 ∨ b = 39 ∨ b = 34 := by
  simp only [isQuote, List.contains_eq_mem, List.mem_cons, List.not_mem_nil, decide_eq_true_iff]
  tauto

/-- A byte that is no quote is added to the word. -/
theorem enter_of_not_quote {b : UInt8} (h : isQuote b = false) (current : Option Word) :
    Mode.enter current b = .word (current.getD [] ++ [⟨b, false⟩]) := by
  have hnot : ¬ isQuote b = true := by simp [h]
  rw [isQuote_iff, not_or, not_or] at hnot
  rw [Mode.enter, if_neg hnot.1, if_neg hnot.2.1, if_neg hnot.2.2]

/-- A quote is not. -/
theorem length_enter_of_quote {b : UInt8} (h : isQuote b = true) (w : Word) :
    (Mode.enter (some w) b).length = w.length ∧ (Mode.enter none b).length = 0 := by
  rcases isQuote_iff.mp h with rfl | rfl | rfl
  · exact ⟨rfl, rfl⟩
  · exact ⟨rfl, rfl⟩
  · exact ⟨rfl, rfl⟩

theorem length_enter_le (current : Option Word) (b : UInt8) :
    (Mode.enter current b).length ≤ (current.getD []).length + 1 := by
  unfold Mode.enter
  split
  · cases current <;> simp [Mode.length]
  split
  · simp [Mode.length]
  split
  · simp [Mode.length]
  · simp [Mode.length]

/-- Ordinary bytes are added to the word that they follow. -/
theorem tokensFrom_ordinary {s : List UInt8} (hs : ∀ b ∈ s, isOrdinary b = true) (w : Word)
    (line : List UInt8) :
    tokensFrom (.word w) (s ++ line) = tokensFrom (.word (w ++ unquoted s)) line := by
  induction s generalizing w with
  | nil => simp [unquoted]
  | cons b s ih =>
    have ⟨hblank, hoperator, hexpansion, hquote⟩ := isOrdinary_iff.mp (hs b List.mem_cons_self)
    have htail : ∀ c ∈ s, isOrdinary c = true := fun c hc => hs c (List.mem_cons_of_mem _ hc)
    have henter := enter_of_not_quote hquote (some w)
    simp only [List.cons_append, tokensFrom, hblank, hoperator, hexpansion, henter,
      Bool.false_eq_true, if_false]
    rw [ih htail]
    simp [unquoted]

/-- Ordinary bytes at the start of a word. -/
theorem tokens_ordinary {b : UInt8} {s : List UInt8}
    (hs : ∀ c ∈ b :: s, isOrdinary c = true) (hcomment : b ≠ 35) (htilde : b ≠ 126)
    (line : List UInt8) :
    tokens ((b :: s) ++ line) = tokensFrom (.word (unquoted (b :: s))) line := by
  have ⟨hblank, hoperator, hexpansion, hquote⟩ := isOrdinary_iff.mp (hs b List.mem_cons_self)
  have htail : ∀ c ∈ s, isOrdinary c = true := fun c hc => hs c (List.mem_cons_of_mem _ hc)
  have henter := enter_of_not_quote hquote none
  rw [tokens, List.cons_append, tokensFrom]
  simp only [hblank, hoperator, hexpansion, hcomment, htilde, henter, Bool.false_eq_true,
    if_false, decide_false, Bool.or_self]
  rw [tokensFrom_ordinary htail]
  rfl

/-! ## Lines of one word -/

variable {mode : Mode} {line : List UInt8} {v : Word}

/-- A line gives its one word no more bytes than it has.  The induction is on the line,
and `Mode.length` counts the bytes that have been read. -/
theorem length_le_of_tokensFrom (h : tokensFrom mode line = [.word v]) :
    v.length ≤ mode.length + line.length := by
  induction line generalizing mode with
  | nil =>
    cases mode with
    | word w =>
      cases h
      exact Nat.le_refl _
    | gap | comment | backslash | single | double | doubleBackslash => cases h
  | cons b line ih =>
    rw [List.length_cons]
    cases mode with
    | gap =>
      rw [tokensFrom] at h
      split_ifs at h
      · have hle := ih h
        simp only [Mode.length] at hle ⊢
        omega
      · cases h
      · have hle := ih h
        simp only [Mode.length] at hle ⊢
        omega
      · cases h
      · have hle := ih h
        have henter := length_enter_le none b
        simp only [Option.getD_none, List.length_nil] at henter
        omega
    | word w =>
      rw [tokensFrom] at h
      split_ifs at h
      · have hv : w = v := Token.word.inj (List.cons.inj h).1
        rw [← hv, Mode.length]
        omega
      · cases h
      · cases h
      · have hle := ih h
        have henter := length_enter_le (some w) b
        rw [Option.getD_some] at henter
        show v.length ≤ w.length + (line.length + 1)
        omega
    | backslash current =>
      rw [tokensFrom] at h
      split_ifs at h
      · have hle := ih h
        cases current <;> simp only [Mode.resume, Mode.length] at hle ⊢ <;> omega
      · have hle := ih h
        cases current <;>
          simp only [Mode.length, List.length_append, List.length_singleton, Option.getD_none,
            Option.getD_some, List.length_nil] at hle ⊢ <;>
          omega
    | single w | double w | doubleBackslash w | comment =>
      rw [tokensFrom] at h
      split_ifs at h
      all_goals first
        | cases h
        | have hle := ih h
          simp only [Mode.length, List.length_append, List.length_cons, List.length_nil] at hle ⊢
          omega

/-- If no byte of the rest of a word is lost, then all of them are ordinary. -/
theorem ordinary_of_word {w : Word} (h : tokensFrom (.word w) line = [.word v])
    (hlength : w.length + line.length ≤ v.length) : ∀ b ∈ line, isOrdinary b = true := by
  induction line generalizing w with
  | nil => nofun
  | cons b line ih =>
    rw [List.length_cons] at hlength
    rw [tokensFrom] at h
    split_ifs at h with hblank hoperator hexpansion
    · have hv : w = v := Token.word.inj (List.cons.inj h).1
      rw [hv] at hlength
      omega
    · cases h
    · cases h
    · by_cases hquote : isQuote b = true
      · have hle := length_le_of_tokensFrom h
        have hstart := (length_enter_of_quote hquote w).1
        omega
      · have hplain : isOrdinary b = true := by
          simp [isOrdinary, hblank, hoperator, hexpansion, hquote]
        rw [enter_of_not_quote (by simpa using hquote)] at h
        have hrest := ih h (by
          simp only [Option.getD_some, List.length_append, List.length_singleton]
          omega)
        exact List.forall_mem_cons.mpr ⟨hplain, hrest⟩

/-- The same from the start of the line on. -/
theorem ordinary_of_tokens (h : tokens line = [.word v]) (hlength : line.length ≤ v.length) :
    ∀ b ∈ line, isOrdinary b = true := by
  cases line with
  | nil => nofun
  | cons b line =>
    rw [List.length_cons] at hlength
    rw [tokens, tokensFrom] at h
    split_ifs at h with hblank hoperator hcomment hexpansion
    · have hle := length_le_of_tokensFrom h
      simp only [Mode.length] at hle
      omega
    · cases h
    · have hle := length_le_of_tokensFrom h
      simp only [Mode.length] at hle
      omega
    · cases h
    · by_cases hquote : isQuote b = true
      · have hle := length_le_of_tokensFrom h
        have hstart := (length_enter_of_quote hquote []).2
        omega
      · rw [Bool.or_eq_true, not_or] at hexpansion
        have hplain : isOrdinary b = true := by
          simp [isOrdinary, hblank, hoperator, hexpansion.1, hquote]
        rw [enter_of_not_quote (by simpa using hquote)] at h
        have hrest := ordinary_of_word h (by
          simp only [Option.getD_none, List.nil_append, List.length_singleton]
          omega)
        exact List.forall_mem_cons.mpr ⟨hplain, hrest⟩

/-! ## A name and a text -/

theorem wordsOf_eq_some {ts : List Token} {ws : List Word} :
    wordsOf ts = some ws ↔ ts = ws.map .word := by
  induction ts generalizing ws with
  | nil => cases ws <;> simp [wordsOf]
  | cons t ts ih =>
    cases t with
    | word w =>
      rw [wordsOf, Option.map_eq_some_iff]
      constructor
      · rintro ⟨rest, hrest, rfl⟩
        rw [ih.mp hrest, List.map_cons]
      · intro heq
        cases ws with
        | nil => cases heq
        | cons w' ws =>
          rw [List.map_cons] at heq
          have ⟨hhead, htail⟩ := List.cons.inj heq
          exact ⟨ws, ih.mpr htail, by rw [Token.word.inj hhead]⟩
    | operator | expansion | unfinished => cases ws <;> simp [wordsOf]

namespace Globbing

variable (g : Globbing)

theorem fields_ne_nil (w : Word) : g.fields w ≠ [] := by
  rw [fields]
  split
  · exact g.expand_ne_nil w
  · exact List.cons_ne_nil _ _

/-- A word of plain bytes gives the bytes. -/
theorem fields_unquoted {s : List UInt8} (hs : ∀ b ∈ s, isPattern b = false) :
    g.fields (unquoted s) = [s] := by
  have hplain : (unquoted s).hasPattern = false := by
    rw [← Bool.not_eq_true, hasPattern_unquoted]
    intro ⟨b, hb, hpattern⟩
    rw [hs b hb] at hpattern
    cases hpattern
  rw [fields, hplain, bytes_unquoted]
  rfl

/-- One field comes from one word. -/
theorem flatMap_fields_eq {ws : List Word} {text : List UInt8}
    (h : ws.flatMap g.fields = [text]) : ∃ w, ws = [w] ∧ g.fields w = [text] := by
  cases ws with
  | nil => cases h
  | cons w ws =>
    rw [List.flatMap_cons, List.append_eq_singleton_iff] at h
    rcases h with ⟨hnone, _⟩ | ⟨hfields, hrest⟩
    · exact absurd hnone (g.fields_ne_nil w)
    · cases ws with
      | nil => exact ⟨w, rfl, hfields⟩
      | cons w' ws =>
        rw [List.flatMap_cons, List.append_eq_nil_iff] at hrest
        exact absurd hrest.1 (g.fields_ne_nil w')

/-- The name is one word, and the text is read after it. -/
theorem simpleCommand_name {n : UInt8} {name : List UInt8}
    (hname : ∀ b ∈ n :: name, isOrdinary b = true ∧ isPattern b = false) (hcomment : n ≠ 35)
    (htilde : n ≠ 126) (hcommand : (unquoted (n :: name)).names = true) (text : List UInt8) :
    g.simpleCommand ((n :: name) ++ 32 :: text) =
      (wordsOf (tokens text)).map fun ws => (n :: name) :: ws.flatMap g.fields := by
  have htokens : tokens ((n :: name) ++ 32 :: text) =
      .word (unquoted (n :: name)) :: tokens text := by
    rw [tokens_ordinary (fun b hb => (hname b hb).1) hcomment htilde]
    rfl
  have hfields : g.fields (unquoted (n :: name)) = [n :: name] :=
    g.fields_unquoted fun b hb => (hname b hb).2
  rw [simpleCommand, htokens, wordsOf]
  cases wordsOf (tokens text) with
  | none => rfl
  | some ws =>
    simp only [Option.map_some, hcommand, if_true, List.flatMap_cons, hfields]
    rfl

/-- A text of one word that gives the text itself. -/
theorem literal_iff {t : UInt8} {text : List UInt8} (hcomment : t ≠ 35) (htilde : t ≠ 126) :
    g.Literal (t :: text) ↔
      ∃ w, tokens (t :: text) = [.word w] ∧ g.fields w = [t :: text] := by
  -- a text of ordinary bytes is a word without quotes
  have hword : (∀ b ∈ t :: text, isOrdinary b = true) →
      tokens (t :: text) = [.word (unquoted (t :: text))] := by
    intro hordinary
    have htokens := tokens_ordinary hordinary hcomment htilde []
    rw [List.append_nil] at htokens
    exact htokens
  constructor
  · rintro (hplain | ⟨w, htokens, hpattern, hexpand⟩)
    · refine ⟨_, hword fun b hb => (hplain b hb).1, ?_⟩
      exact g.fields_unquoted fun b hb => (hplain b hb).2
    · exact ⟨w, htokens, by rw [fields, if_pos hpattern, hexpand]⟩
  · intro ⟨w, htokens, hfields⟩
    by_cases hpattern : w.hasPattern = true
    · rw [fields, if_pos hpattern] at hfields
      exact .inr ⟨w, htokens, hpattern, hfields⟩
    · left
      rw [fields, if_neg hpattern] at hfields
      have hbytes : w.bytes = t :: text := (List.cons.inj hfields).1
      have hlength : (t :: text).length = w.length := by
        rw [← hbytes]
        exact List.length_map _
      have hordinary := ordinary_of_tokens htokens (Nat.le_of_eq hlength)
      rw [hword hordinary] at htokens
      have hw : unquoted (t :: text) = w := Token.word.inj (List.cons.inj htokens).1
      rw [← hw, hasPattern_unquoted] at hpattern
      intro b hb
      refine ⟨hordinary b hb, ?_⟩
      rw [← Bool.not_eq_true]
      intro hspecial
      exact hpattern ⟨b, hb, hspecial⟩

/-- The line passes the text on exactly when it is literal. -/
theorem simpleCommand_iff {n : UInt8} {name : List UInt8}
    (hname : ∀ b ∈ n :: name, isOrdinary b = true ∧ isPattern b = false) (hcomment : n ≠ 35)
    (htilde : n ≠ 126) (hcommand : (unquoted (n :: name)).names = true) {t : UInt8}
    {text : List UInt8} (hcomment' : t ≠ 35) (htilde' : t ≠ 126) :
    g.simpleCommand ((n :: name) ++ 32 :: (t :: text)) = some [n :: name, t :: text] ↔
      g.Literal (t :: text) := by
  rw [g.simpleCommand_name hname hcomment htilde hcommand, g.literal_iff hcomment' htilde',
    Option.map_eq_some_iff]
  constructor
  · intro ⟨ws, hws, hargs⟩
    have ⟨w, hw, hfields⟩ := g.flatMap_fields_eq (List.cons.inj hargs).2
    rw [wordsOf_eq_some, hw] at hws
    exact ⟨w, hws, hfields⟩
  · intro ⟨w, htokens, hfields⟩
    exact ⟨[w], wordsOf_eq_some.mpr htokens, by rw [List.flatMap_singleton, hfields]⟩

end Globbing

end NetLabs.Lib.Shell
