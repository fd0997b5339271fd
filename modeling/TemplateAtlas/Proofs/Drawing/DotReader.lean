import Mathlib.Data.List.Basic
import TemplateAtlas.Drawing.Dot
import TemplateAtlas.Proofs.Template.Written
import TemplateAtlas.Text.Word

/-!
# Reading DOT

A reader for the part of the language that graphs are drawn in. The characters are read into tokens
by an automaton, one character at a time: a text in quotes ends at the first quote that no backslash
before it takes, and only what stands outside of quotes can be a brace or end a statement. The
tokens are read into a flat list of statements, where a brace that opens or closes a block counts as
a statement of its own.

The automaton reads a text piece by piece (`Runs.append`), a text in quotes gives back what was
escaped (`Inside.escape`), and tokens that read as statements have as many braces as these
statements open and close (`braceDepth_of_statementsFrom`).
-/

namespace TemplateAtlas.Dot

open TemplateAtlas.Text TemplateAtlas.Template

/-! ### Tokens -/

/-- What a text is made of. -/
inductive Token where
  /-- Letters, digits and underscores outside of quotes. -/
  | word (text : String)
  /-- A text in quotes, with its escapes resolved. -/
  | quoted (text : String)
  /-- The brace that opens a block. -/
  | openBrace
  /-- The brace that closes a block. -/
  | closeBrace
  /-- The bracket in front of settings. -/
  | openBracket
  /-- The bracket after settings. -/
  | closeBracket
  /-- The sign between the name and the value of a setting. -/
  | equals
  /-- The comma between settings. -/
  | comma
  /-- The end of a statement. -/
  | semicolon
  /-- The arrow between the ends of an edge. -/
  | arrow
  deriving DecidableEq, Repr

/-- The token that a character is by itself. -/
def mark? : Char → Option Token
  | '\x7b' => some .openBrace
  | '\x7d' => some .closeBrace
  | '[' => some .openBracket
  | ']' => some .closeBracket
  | '=' => some .equals
  | ',' => some .comma
  | ';' => some .semicolon
  | _ => none

/-- What is being read. -/
inductive Lexing where
  /-- No token. -/
  | between
  /-- A word that opens with these characters. -/
  | inWord (front : List Char)
  /-- A text in quotes that opens with these characters. -/
  | inQuotes (front : List Char)
  /-- The same, right after a backslash. -/
  | afterBackslash (front : List Char)
  /-- The dash of an arrow. -/
  | dash
  deriving DecidableEq, Repr

/-- The first character of a token, or a blank in front of one. -/
def startToken (c : Char) : Option (List Token × Lexing) :=
  if isBlank c then some ([], .between)
  else if c = '\x22' then some ([], .inQuotes [])
  else if c = '-' then some ([], .dash)
  else if isAsciiWord c then some ([], .inWord [c])
  else (mark? c).map fun token => ([token], .between)

/-- One more character, with the tokens that it completes. In quotes, a backslash takes the next
character: a backslash or a quote stands for itself, and other characters keep the backslash. -/
def Lexing.step : Lexing → Char → Option (List Token × Lexing)
  | between, c => startToken c
  | inWord front, c =>
    if isAsciiWord c then some ([], .inWord (front ++ [c]))
    else (startToken c).map fun (tokens, next) => (.word (String.ofList front) :: tokens, next)
  | inQuotes front, c =>
    if c = '\x22' then some ([.quoted (String.ofList front)], .between)
    else if c = '\\' then some ([], .afterBackslash front)
    else some ([], .inQuotes (front ++ [c]))
  | afterBackslash front, c =>
    some ([], .inQuotes (front ++ if c = '\\' || c = '\x22' then [c] else ['\\', c]))
  | dash, c => if c = '>' then some ([.arrow], .between) else none

/-- The tokens of a text, and what is being read at its end. -/
def Lexing.run : Lexing → List Char → Option (List Token × Lexing)
  | state, [] => some ([], state)
  | state, c :: cs => do
    let (tokens, next) ← state.step c
    let (rest, last) ← next.run cs
    return (tokens ++ rest, last)

/-- The tokens that the end of a text completes; a text in quotes has to be closed. -/
def Lexing.finish : Lexing → Option (List Token)
  | between => some []
  | inWord front => some [.word (String.ofList front)]
  | _ => none

/-- The tokens of a whole text. -/
def lex (text : String) : Option (List Token) := do
  let (tokens, last) ← Lexing.between.run text.toList
  return tokens ++ (← last.finish)

/-- The number of braces that are open after tokens, if none closes that was not open. -/
def braceDepth : Nat → List Token → Option Nat
  | depth, [] => some depth
  | depth, .openBrace :: rest => braceDepth (depth + 1) rest
  | 0, .closeBrace :: _ => none
  | depth + 1, .closeBrace :: rest => braceDepth depth rest
  | depth, _ :: rest => braceDepth depth rest

/-! ### Statements -/

/-- What tokens say. -/
inductive Statement where
  /-- A block opens: a graph or a part of one. -/
  | opens (kind name : String)
  /-- The block closes. -/
  | closes
  /-- A setting of the block. -/
  | setting (name value : String)
  /-- Settings for all graphs, nodes or edges of the block. -/
  | defaults (kind : String) (settings : List (String × String))
  /-- A node. -/
  | node (id : String) (settings : List (String × String))
  /-- An edge. -/
  | edge (source target : String) (settings : List (String × String))
  deriving DecidableEq, Repr

namespace Statement

/-- Is it a node? -/
def isNode : Statement → Bool
  | node .. => true
  | _ => false

/-- Is it an edge? -/
def isEdge : Statement → Bool
  | edge .. => true
  | _ => false

end Statement

/-- The text of an identifier. -/
def Token.id? : Token → Option String
  | word text => some text
  | quoted text => some text
  | _ => none

/-- The settings after their opening bracket, up to the bracket that ends the statement. -/
def settings? : List Token → Option (List (String × String))
  | [.word name, .equals, value, .closeBracket] => value.id?.map fun text => [(name, text)]
  | .word name :: .equals :: value :: .comma :: rest => do
    return (name, ← value.id?) :: (← settings? rest)
  | _ => none

/-- The words that open defaults. -/
def defaultKinds : List String :=
  ["graph", "node", "edge"]

/-- The statement of the tokens in front of a semicolon. -/
def statement? : List Token → Option Statement
  | [.word name, .equals, value] => value.id?.map (.setting name)
  | .word text :: .openBracket :: rest =>
    (settings? rest).map (if defaultKinds.contains text then .defaults text else .node text)
  | .quoted text :: .openBracket :: rest => (settings? rest).map (.node text)
  | source :: .arrow :: target :: .openBracket :: rest => do
    return .edge (← source.id?) (← target.id?) (← settings? rest)
  | _ => none

/-- The statement of the tokens in front of a brace that opens a block. -/
def opening? : List Token → Option Statement
  | [.word kind, name] => name.id?.map (.opens kind)
  | _ => none

/-- The statements of tokens, after those in `front` that have no end yet. -/
def statementsFrom (front : List Token) : List Token → Option (List Statement)
  | [] => if front.isEmpty then some [] else none
  | token :: rest =>
    match token with
    | .semicolon => do return (← statement? front) :: (← statementsFrom [] rest)
    | .openBrace => do return (← opening? front) :: (← statementsFrom [] rest)
    | .closeBrace => if front.isEmpty then (statementsFrom [] rest).map (.closes :: ·) else none
    | token => statementsFrom (front ++ [token]) rest

/-- The number of blocks that are open after statements, if none closes that was not open. -/
def blockDepth : Nat → List Statement → Option Nat
  | depth, [] => some depth
  | depth, .opens .. :: rest => blockDepth (depth + 1) rest
  | 0, .closes :: _ => none
  | depth + 1, .closes :: rest => blockDepth depth rest
  | depth, _ :: rest => blockDepth depth rest

/-- The statements of a whole text. -/
def read (text : String) : Option (List Statement) := do
  statementsFrom [] (← lex text)

/-! ### Braces and blocks -/

theorem blockDepth_append (depth : Nat) (front rest : List Statement) :
    blockDepth depth (front ++ rest) = (blockDepth depth front).bind (blockDepth · rest) := by
  fun_induction blockDepth depth front with
  | case1 => rfl
  | case2 _ _ _ _ ih => exact ih
  | case3 => rfl
  | case4 _ _ ih => exact ih
  | case5 _ _ _ hopens hzero hsucc ih =>
    rw [List.cons_append, blockDepth.eq_5 _ _ _ hopens hzero hsucc, ih]

/-- The statement in front of a semicolon neither opens nor closes a block. -/
theorem blockDepth_cons_of_statement? {tokens : List Token} {s : Statement}
    (h : statement? tokens = some s) (depth : Nat) (rest : List Statement) :
    blockDepth depth (s :: rest) = blockDepth depth rest := by
  unfold statement? at h
  split at h
  · obtain ⟨_, -, rfl⟩ := Option.map_eq_some_iff.1 h
    rw [blockDepth] <;> simp
  · obtain ⟨_, -, rfl⟩ := Option.map_eq_some_iff.1 h
    split <;> rw [blockDepth] <;> simp
  · obtain ⟨_, -, rfl⟩ := Option.map_eq_some_iff.1 h
    rw [blockDepth] <;> simp
  · simp only [Option.bind_eq_bind, Option.bind_eq_some_iff, Option.pure_def,
      Option.some.injEq] at h
    obtain ⟨_, -, _, -, _, -, rfl⟩ := h
    rw [blockDepth] <;> simp
  · cases h

theorem exists_of_opening? {tokens : List Token} {s : Statement} (h : opening? tokens = some s) :
    ∃ kind name, s = .opens kind name := by
  unfold opening? at h
  split at h
  · obtain ⟨name, -, rfl⟩ := Option.map_eq_some_iff.1 h
    exact ⟨_, name, rfl⟩
  · cases h

/-- Tokens have as many braces as the statements that they say open and close blocks. -/
theorem braceDepth_of_statementsFrom {front tokens : List Token} {statements : List Statement}
    (h : statementsFrom front tokens = some statements) (depth : Nat) :
    braceDepth depth tokens = blockDepth depth statements := by
  fun_induction statementsFrom front tokens generalizing depth statements with
  | case1 =>
    cases h
    rfl
  | case2 => cases h
  | case3 front rest ih =>
    simp only [Option.bind_eq_bind, Option.bind_eq_some_iff, Option.pure_def,
      Option.some.injEq] at h
    obtain ⟨s, hs, statements, hrest, rfl⟩ := h
    rw [blockDepth_cons_of_statement? hs, braceDepth, ih hrest] <;> simp
  | case4 front rest ih =>
    simp only [Option.bind_eq_bind, Option.bind_eq_some_iff, Option.pure_def,
      Option.some.injEq] at h
    obtain ⟨s, hs, statements, hrest, rfl⟩ := h
    obtain ⟨kind, name, rfl⟩ := exists_of_opening? hs
    exact ih hrest (depth + 1)
  | case5 front rest _ ih =>
    obtain ⟨statements, hrest, rfl⟩ := Option.map_eq_some_iff.1 h
    cases depth with
    | zero => rfl
    | succ depth => exact ih hrest depth
  | case6 => cases h
  | case7 front token rest hsemicolon hopen hclose ih =>
    rw [braceDepth, ih h]
    · exact hopen
    · exact fun _ => hclose
    · exact fun _ _ => hclose

/-! ### Reading piece by piece -/

/-- From one state to another, the automaton reads these tokens. -/
def Runs (state : Lexing) (cs : List Char) (tokens : List Token) (last : Lexing) : Prop :=
  state.run cs = some (tokens, last)

instance (state : Lexing) (cs : List Char) (tokens : List Token) (last : Lexing) :
    Decidable (Runs state cs tokens last) :=
  inferInstanceAs (Decidable (_ = _))

namespace Runs

variable {s s' s'' : Lexing} {cs ds : List Char} {ts us : List Token}

theorem append (h : Runs s cs ts s') (h' : Runs s' ds us s'') :
    Runs s (cs ++ ds) (ts ++ us) s'' := by
  induction cs generalizing s ts with
  | nil =>
    obtain ⟨rfl, rfl⟩ : [] = ts ∧ s = s' := by simpa [Runs, Lexing.run] using h
    exact h'
  | cons c cs ih =>
    simp only [Runs, Lexing.run, Option.bind_eq_bind, Option.bind_eq_some_iff, Option.pure_def,
      Option.some.injEq, Prod.exists, Prod.mk.injEq] at h
    obtain ⟨first, next, hstep, rest, last, hrun, rfl, rfl⟩ := h
    have hrest : next.run (cs ++ ds) = some (rest ++ us, s'') := ih hrun
    rw [Runs, List.cons_append, Lexing.run, hstep]
    simp [hrest]

/-- One character that completes no token, and what follows. -/
theorem cons {c : Char} (hstep : s.step c = some ([], s')) (h : Runs s' cs ts s'') :
    Runs s (c :: cs) ts s'' := by
  rw [Runs, Lexing.run, hstep]
  simp [show s'.run cs = some (ts, s'') from h]

end Runs

/-- One pass escapes what the two replacements escape: no quote comes from a backslash, and the
backslash in front of a quote is not seen again. -/
theorem toList_escape (text : String) :
    (escape text).toList = text.toList.flatMap fun c => if c = '\\' || c =
      '\x22' then ['\\', c] else [c] := by
  rw [escape, String.toList_ofList, replaceAll_singleton, replaceAll_singleton, List.flatMap_assoc]
  refine List.flatMap_congr fun c _ => ?_
  by_cases hslash : c = '\\'
  · subst hslash
    rfl
  · by_cases hquote : c = '\x22' <;> simp [hslash, hquote]

/-- Inside quotes, the one text is written for the other. -/
def Inside (written text : String) : Prop :=
  ∀ front, Runs (.inQuotes front) written.toList [] (.inQuotes (front ++ text.toList))

namespace Inside

variable {a b x y : String}

theorem append (h : Inside a x) (h' : Inside b y) : Inside (a ++ b) (x ++ y) := by
  intro front
  rw [String.toList_append, String.toList_append, ← List.append_assoc]
  exact (h front).append (h' _)

/-- An escaped text is written for that text. -/
theorem escape (text : String) : Inside (Dot.escape text) text := by
  intro front
  rw [Dot.toList_escape]
  induction text.toList generalizing front with
  | nil => simp [Runs, Lexing.run]
  | cons c cs ih =>
    rw [List.flatMap_cons, List.append_cons front c cs]
    by_cases hc : (c = '\\' || c = '\x22') = true
    · rw [if_pos hc, List.cons_append, List.singleton_append]
      have hbackslash : (Lexing.inQuotes front).step '\\' = some ([], .afterBackslash front) := by
        rw [Lexing.step, if_neg (by decide), if_pos rfl]
      have hescaped : (Lexing.afterBackslash front).step c =
          some ([], .inQuotes (front ++ [c])) := by
        rw [Lexing.step, if_pos hc]
      exact .cons hbackslash (.cons hescaped (ih _))
    · rw [if_neg hc, List.singleton_append]
      simp only [Bool.or_eq_true, decide_eq_true_eq, not_or] at hc
      have hplain : (Lexing.inQuotes front).step c = some ([], .inQuotes (front ++ [c])) := by
        rw [Lexing.step, if_neg hc.2, if_neg hc.1]
      exact .cons hplain (ih _)

/-- A text without backslashes and quotes is written for itself. -/
theorem of_plain {text : String} (h : '\\' ∉ text.toList ∧ '\x22' ∉ text.toList) :
    Inside text text := by
  have hsame : Dot.escape text = text := by
    rw [Dot.escape, replaceAll_of_notMem h.1, replaceAll_of_notMem h.2, String.ofList_toList]
  have hescaped := escape text
  rwa [hsame] at hescaped

end Inside

/-- A text in quotes is one token. -/
theorem runs_quoted {written text : String} (h : Inside written text) :
    Runs .between (quoted written).toList [.quoted text] .between := by
  have hopen : Runs .between "\"".toList [] (.inQuotes []) := rfl
  have hclose : Runs (.inQuotes text.toList) "\"".toList [.quoted text] .between := by
    simp [Runs, Lexing.run, Lexing.step, String.ofList_toList]
  rw [quoted, String.toList_append, String.toList_append]
  exact (hopen.append (h [])).append hclose

example :
    lex "\"a\\\"\x7b\" -> \"\\\\\";" =
      some [.quoted "a\"\x7b", .arrow, .quoted "\\", .semicolon] := by
  decide

/-- A name that opens a setting. -/
def IsName (name : String) : Prop :=
  name.toList ≠ [] ∧ ∀ c ∈ name.toList, isAsciiWord c = true

instance (name : String) : Decidable (IsName name) :=
  decidable_of_iff (name.toList ≠ [] ∧ name.toList.all isAsciiWord = true)
    (and_congr_right' List.all_eq_true)

theorem step_inWord {front : List Char} {c : Char} (h : isAsciiWord c = true) :
    (Lexing.inWord front).step c = some ([], .inWord (front ++ [c])) := by
  rw [Lexing.step, if_pos h]

theorem runs_name {name : String} (h : IsName name) :
    Runs .between name.toList [] (.inWord name.toList) := by
  have hword : ∀ front cs, (∀ c ∈ cs, isAsciiWord c = true) →
      Runs (.inWord front) cs [] (.inWord (front ++ cs)) := by
    intro front cs hcs
    induction cs generalizing front with
    | nil => simp [Runs, Lexing.run]
    | cons c cs ih =>
      rw [List.append_cons]
      exact .cons (step_inWord (hcs c (by simp))) (ih _ fun d hd => hcs d (by simp [hd]))
  obtain ⟨hne, hall⟩ := h
  cases hcs : name.toList with
  | nil => exact absurd hcs hne
  | cons c cs =>
    rw [hcs] at hall
    have hc : isAsciiWord c = true := hall c (by simp)
    have hstart : Lexing.between.step c = some ([], .inWord [c]) := by
      have hquote : c ≠ '\x22' := ne_of_isAsciiWord hc (by decide)
      have hdash : c ≠ '-' := ne_of_isAsciiWord hc (by decide)
      simp [Lexing.step, startToken, not_blank_of_isAsciiWord hc, hquote, hdash, hc]
    exact .cons hstart (hword [c] cs fun d hd => hall d (by simp [hd]))

/-- A setting with its name and its text. -/
theorem runs_setting {name written text : String} (hname : IsName name) (h : Inside written text) :
    Runs .between (setting name written).toList [.word name, .equals, .quoted text] .between := by
  have hequals : Runs (.inWord name.toList) "=".toList [.word name, .equals] .between := by
    have hword : isAsciiWord '=' = false := by decide
    have hstart : startToken '=' = some ([.equals], .between) := by decide
    simp [Runs, Lexing.run, Lexing.step, hword, hstart]
  rw [setting, String.toList_append, String.toList_append]
  exact ((runs_name hname).append hequals).append (runs_quoted h)

/-- The tokens of settings after their opening bracket. -/
def settingTokens : List (String × String) → List Token
  | [] => [.closeBracket]
  | [(name, text)] => [.word name, .equals, .quoted text, .closeBracket]
  | (name, text) :: next :: rest =>
    .word name :: .equals :: .quoted text :: .comma :: settingTokens (next :: rest)

/-- The first is a setting as it is written, and the second as it is read. -/
def WrittenAs (written read : String × String) : Prop :=
  written.1 = read.1 ∧ IsName read.1 ∧ Inside written.2 read.2

/-- Settings in brackets. -/
theorem runs_settings {written texts : List (String × String)}
    (h : List.Forall₂ WrittenAs written texts) :
    Runs .between (settings written).toList (.openBracket :: settingTokens texts) .between := by
  have hopen : Runs .between "[".toList [.openBracket] .between := rfl
  have hclose : Runs .between "]".toList [.closeBracket] .between := rfl
  have hcomma : Runs .between ", ".toList [.comma] .between := by decide
  have hinner : Runs .between
      (", ".intercalate (written.map fun p => setting p.1 p.2) ++ "]").toList
      (settingTokens texts) .between := by
    induction h with
    | nil => exact hclose
    | @cons w t written texts hw hrest ih =>
      obtain ⟨hsame, hname, hinside⟩ := hw
      have hfirst := runs_setting hname hinside
      rw [← hsame] at hfirst
      cases hrest with
      | nil =>
        rw [List.map_cons, List.map_nil, String.intercalate_singleton, String.toList_append,
          settingTokens, ← hsame]
        exact hfirst.append hclose
      | @cons w' t' written texts hw' hrest =>
        rw [List.map_cons, List.map_cons, String.intercalate_cons_cons, String.append_assoc,
          String.toList_append, String.toList_append, settingTokens, ← hsame]
        exact (hfirst.append hcomma).append ih
  rw [settings, String.append_assoc, String.toList_append]
  exact hopen.append hinner

theorem settings?_settingTokens {texts : List (String × String)} (h : texts ≠ []) :
    settings? (settingTokens texts) = some texts := by
  fun_induction settingTokens texts with
  | case1 => exact absurd rfl h
  | case2 name text => rfl
  | case3 name text next rest ih => simp [settings?, ih, Token.id?]

/-! ### Lines -/

/-- Does the token end a statement, or open or close a block? -/
def Token.isSeparator : Token → Bool
  | openBrace => true
  | closeBrace => true
  | semicolon => true
  | _ => false

theorem isSeparator_of_mem_settingTokens (texts : List (String × String)) :
    ∀ token ∈ settingTokens texts, token.isSeparator = false := by
  fun_induction settingTokens texts with
  | case1 => exact List.forall_mem_singleton.2 rfl
  | case2 name text =>
    simp only [List.forall_mem_cons]
    exact ⟨rfl, rfl, rfl, rfl, List.forall_mem_nil _⟩
  | case3 name text next rest ih =>
    simp only [List.forall_mem_cons]
    exact ⟨rfl, rfl, rfl, rfl, ih⟩

/-- Tokens that are no separators wait for the end of their statement. -/
theorem statementsFrom_append_of_isSeparator {front tokens : List Token}
    (h : ∀ token ∈ tokens, token.isSeparator = false) (rest : List Token) :
    statementsFrom front (tokens ++ rest) = statementsFrom (front ++ tokens) rest := by
  induction tokens generalizing front with
  | nil => simp
  | cons token tokens ih =>
    have hstep : statementsFrom front (token :: (tokens ++ rest)) =
        statementsFrom (front ++ [token]) (tokens ++ rest) := by
      have hno := h token (by simp)
      cases token <;> first | rfl | cases hno
    rw [List.cons_append, hstep, ih fun t ht => h t (by simp [ht]), List.append_assoc,
      List.singleton_append]

/-- Statements that have their ends do not depend on what follows. -/
theorem statementsFrom_append {front tokens : List Token} {statements : List Statement}
    (h : statementsFrom front tokens = some statements) (rest : List Token) :
    statementsFrom front (tokens ++ rest) = (statementsFrom [] rest).map (statements ++ ·) := by
  fun_induction statementsFrom front tokens generalizing statements with
  | case1 front hfront =>
    cases h
    rw [List.isEmpty_iff.1 hfront]
    simp
  | case2 => cases h
  | case3 front tokens ih =>
    simp only [Option.bind_eq_bind, Option.bind_eq_some_iff, Option.pure_def,
      Option.some.injEq] at h
    obtain ⟨s, hs, statements, hrest, rfl⟩ := h
    rw [List.cons_append, statementsFrom, hs, ih hrest]
    cases statementsFrom [] rest <;> rfl
  | case4 front tokens ih =>
    simp only [Option.bind_eq_bind, Option.bind_eq_some_iff, Option.pure_def,
      Option.some.injEq] at h
    obtain ⟨s, hs, statements, hrest, rfl⟩ := h
    rw [List.cons_append, statementsFrom, hs, ih hrest]
    cases statementsFrom [] rest <;> rfl
  | case5 front tokens hfront ih =>
    obtain ⟨statements, hrest, rfl⟩ := Option.map_eq_some_iff.1 h
    simp [statementsFrom, hfront, ih hrest, Function.comp_def]
  | case6 => cases h
  | case7 front token tokens hsemicolon hopen hclose ih =>
    rw [List.cons_append, statementsFrom, ih h]
    · exact hsemicolon
    · exact hopen
    · exact hclose

/-- The lines read as these statements. -/
def Reads (lines : List String) (statements : List Statement) : Prop :=
  ∃ tokens, Runs .between (String.join (lines.map (· ++ "\n"))).toList tokens .between ∧
    statementsFrom [] tokens = some statements

namespace Reads

variable {lines lines' : List String} {ss ss' : List Statement}

theorem nil : Reads [] [] :=
  ⟨[], rfl, rfl⟩

theorem append (h : Reads lines ss) (h' : Reads lines' ss') :
    Reads (lines ++ lines') (ss ++ ss') := by
  obtain ⟨tokens, hruns, hstatements⟩ := h
  obtain ⟨tokens', hruns', hstatements'⟩ := h'
  refine ⟨tokens ++ tokens', ?_, ?_⟩
  · rw [List.map_append, String.toList_join, List.flatMap_append, ← String.toList_join,
      ← String.toList_join]
    exact hruns.append hruns'
  · rw [statementsFrom_append hstatements, hstatements']
    rfl

theorem flatMap {α : Type} {f : α → List String} {g : α → List Statement} {l : List α}
    (h : ∀ a ∈ l, Reads (f a) (g a)) : Reads (l.flatMap f) (l.flatMap g) := by
  induction l with
  | nil => exact nil
  | cons a l ih => exact (h a (by simp)).append (ih fun b hb => h b (by simp [hb]))

/-- One line with the tokens of a statement. -/
theorem of_statement? {line : String} {s : Statement} (tokens : List Token)
    (hruns : Runs .between line.toList tokens .between)
    (hno : ∀ token ∈ tokens, token.isSeparator = false) (hs : statement? tokens = some s) :
    Reads [line ++ ";"] [s] := by
  refine ⟨tokens ++ [.semicolon], ?_, ?_⟩
  · have hend : Runs .between ";\n".toList [.semicolon] .between := by decide
    rw [List.map_singleton, String.toList_join, List.flatMap_singleton, String.append_assoc,
      String.toList_append]
    exact hruns.append hend
  · rw [statementsFrom_append_of_isSeparator hno]
    simp [statementsFrom, hs]

end Reads

end TemplateAtlas.Dot
