import Fuse.Engine.SqlAst
import Fuse.Foundation.Descent
import Fuse.Foundation.Transducer

/-!
# Tokens of SQL

The tokens of the part of SQL the connectors write, as a transducer over the
characters: quoted names and texts with doubled quotes, words, numbers and
signs.  Comments and the other forms of the language are not read.
-/

namespace Fuse.Engine

open Foundation Fuse.Core List

inductive Keyword where
  | SELECT | FROM | WHERE | GROUP | BY | HAVING | ORDER | LIMIT | OFFSET | AS
  | AND | OR | NOT | IN | IS | NULL | LIKE | ILIKE | TRUE | FALSE | DISTINCT
  | ASC | DESC
  deriving DecidableEq, Repr

namespace Keyword

def text : Keyword → Str
  | SELECT => "SELECT"
  | FROM => "FROM"
  | WHERE => "WHERE"
  | GROUP => "GROUP"
  | BY => "BY"
  | HAVING => "HAVING"
  | ORDER => "ORDER"
  | LIMIT => "LIMIT"
  | OFFSET => "OFFSET"
  | AS => "AS"
  | AND => "AND"
  | OR => "OR"
  | NOT => "NOT"
  | IN => "IN"
  | IS => "IS"
  | NULL => "NULL"
  | LIKE => "LIKE"
  | ILIKE => "ILIKE"
  | TRUE => "TRUE"
  | FALSE => "FALSE"
  | DISTINCT => "DISTINCT"
  | ASC => "ASC"
  | DESC => "DESC"

def all : List Keyword :=
  [SELECT, FROM, WHERE, GROUP, BY, HAVING, ORDER, LIMIT, OFFSET, AS, AND, OR,
    NOT, IN, IS, NULL, LIKE, ILIKE, TRUE, FALSE, DISTINCT, ASC, DESC]

def ofWord (word : Str) : Option Keyword :=
  all.find? fun k => Str.eqIgnoreAsciiCase k.text word

end Keyword

def reservedWords : List Str :=
  ["ALL", "ALTER", "ANALYZE", "ANTI", "ANY", "ARRAY", "ASOF", "BETWEEN", "CASE",
    "CAST",
    "CEIL", "CEILING", "CHECK", "CLUSTER", "COLLATE", "CONNECT", "CONVERT",
    "CREATE", "CROSS", "CUBE", "CURRENT", "CURRENT_CATALOG", "CURRENT_DATE",
    "CURRENT_TIME", "CURRENT_TIMESTAMP", "CURRENT_USER", "DATE", "DATETIME",
    "DELETE", "DISTRIBUTE", "DIV", "DROP", "ELSE", "EMIT", "END", "ESCAPE",
    "EXCEPT", "EXISTS", "EXPLAIN", "EXTRACT", "FETCH", "FILTER", "FINAL",
    "FLOOR", "FOR", "FORMAT", "FULL", "GLOBAL", "GROUPING", "INNER", "INSERT",
    "INTERSECT", "INTERVAL", "INTO", "ISNULL", "JOIN", "LAMBDA", "LATERAL",
    "LEFT", "LISTAGG", "LOCALTIME", "LOCALTIMESTAMP", "MAP", "MATCH",
    "MATCH_RECOGNIZE", "MINUS", "NATURAL", "NOTNULL", "ON", "OPERATOR",
    "OUTER", "OVER", "OVERLAY", "OVERLAPS", "PARTITION", "PIVOT", "POSITION",
    "PREWHERE", "PRIOR", "QUALIFY", "REGEXP", "REPLACE", "RETURNING", "RIGHT",
    "RLIKE", "ROLLUP", "ROW", "ROWS", "SAMPLE", "SEMI", "SESSION_USER", "SET",
    "SETTINGS", "SIMILAR", "SOME", "SORT", "START", "STRUCT", "SUBSTR",
    "SUBSTRING", "TABLE", "TABLESAMPLE", "THEN", "TIME", "TIMESTAMP", "TOP",
    "TRIM", "TRY_CAST", "TRY_CONVERT", "UNION", "UNNEST", "UNPIVOT", "UPDATE",
    "USER", "USING", "VALUES", "VIEW", "WHEN", "WINDOW", "WITH", "WITHIN",
    "XOR"].map String.toList

def isReserved (word : Str) : Bool :=
  reservedWords.any fun r => Str.eqIgnoreAsciiCase r word

inductive Token where
  | keyword (k : Keyword)
  | reserved (text : Str)
  | word (id : Ident)
  | number (text : Str)
  | string (s : Str)
  | compare (op : BinaryOperator)
  | comma | lparen | rparen | star | minus
  deriving DecidableEq, Repr

def wordToken (word : Str) : Token :=
  match Keyword.ofWord word with
  | some k => .keyword k
  | none =>
    if isReserved word then .reserved word else .word { value := word }

def quotedToken (quote : Char) (content : Str) : Token :=
  if quote = '\'' then .string content
  else .word { value := content, quoteStyle := some quote }

inductive LexState where
  | start
  | word (read : Str)
  | number (read : Str)
  | fraction (read : Str)
  | quoted (quote : Char) (read : Str)
  | closing (quote : Char) (read : Str)
  | less | greater | bang | dash
  deriving DecidableEq, Repr

def isWordStart (c : Char) : Bool := c.isAlpha || c = '_'

def isWordPart (c : Char) : Bool := c.isAlphanum || c = '_'

def startStep (c : Char) : Option (List Token × LexState) :=
  if Str.isAsciiWhitespace c then some ([], .start)
  else if isWordStart c then some ([], .word [c])
  else if c.isDigit then some ([], .number [c])
  else if c = '"' || c = '\'' then some ([], .quoted c [])
  else if c = ',' then some ([.comma], .start)
  else if c = '(' then some ([.lparen], .start)
  else if c = ')' then some ([.rparen], .start)
  else if c = '*' then some ([.star], .start)
  else if c = '=' then some ([.compare .eq], .start)
  else if c = '<' then some ([], .less)
  else if c = '>' then some ([], .greater)
  else if c = '!' then some ([], .bang)
  else if c = '-' then some ([], .dash)
  else none

def emitThen (token : Token) (c : Char) : Option (List Token × LexState) :=
  (startStep c).map fun r => (token :: r.1, r.2)

def lexStep : LexState → Char → Option (List Token × LexState)
  | .start, c => startStep c
  | .word read, c =>
    if isWordPart c then some ([], .word (read ++ [c]))
    else emitThen (wordToken read) c
  | .number read, c =>
    if c.isDigit then some ([], .number (read ++ [c]))
    else if c = '.' then some ([], .fraction (read ++ [c]))
    else if isWordPart c then none
    else emitThen (.number read) c
  | .fraction read, c =>
    if c.isDigit then some ([], .fraction (read ++ [c]))
    else if c = '.' || isWordPart c then none
    else emitThen (.number read) c
  | .quoted quote read, c =>
    if c = quote then some ([], .closing quote read)
    else some ([], .quoted quote (read ++ [c]))
  | .closing quote read, c =>
    if c = quote then some ([], .quoted quote (read ++ [c]))
    else emitThen (quotedToken quote read) c
  | .less, c =>
    if c = '=' then some ([.compare .ltEq], .start)
    else if c = '>' then some ([.compare .notEq], .start)
    else emitThen (.compare .lt) c
  | .greater, c =>
    if c = '=' then some ([.compare .gtEq], .start)
    else emitThen (.compare .gt) c
  | .bang, c =>
    if c = '=' then some ([.compare .notEq], .start) else none
  -- two dashes start a comment
  | .dash, c => if c = '-' then none else emitThen .minus c

def lexFinish : LexState → Option (List Token)
  | .start => some []
  | .word read => some [wordToken read]
  | .number read => some [.number read]
  | .fraction read => some [.number read]
  | .closing quote read => some [quotedToken quote read]
  | _ => none

def lexer : Transducer LexState Char Token where
  start := .start
  step := lexStep
  finish := lexFinish

def tokenize (sql : Str) : Option (List Token) := lexer.run sql

def isBreak (c : Char) : Bool := c = ' ' || c = ',' || c = ')' || c = '('

abbrev Lexes (text : Str) (tokens : List Token) : Prop :=
  lexer.EmitsBefore isBreak text tokens

abbrev LexesAll (text : Str) (tokens : List Token) : Prop :=
  lexer.Emits text tokens

variable {c : Char} {text : Str} {quote : Char}

theorem isBreak_cases (h : isBreak c = true) :
    c = ' ' ∨ c = ',' ∨ c = ')' ∨ c = '(' := by
  simpa [isBreak, or_assoc] using h

theorem pending_of_emitThen {s : LexState} {token : Token}
    (hfinish : lexFinish s = some [token])
    (hstep : ∀ c, isBreak c = true → lexStep s c = emitThen token c) :
    lexer.Pending isBreak s [token] :=
  ⟨hfinish, fun c hc => (hstep c hc).trans rfl⟩

theorem pending_start : lexer.Pending isBreak .start [] := ⟨rfl, fun c _ => by
    change startStep c = (startStep c).map _
    cases startStep c <;> rfl⟩

theorem LexesAll.lexes {tokens : List Token} (h : LexesAll text tokens) :
    Lexes text tokens :=
  ⟨tokens, .start, [], h, pending_start, (List.append_nil _).symm⟩

theorem pending_word (read : Str) :
    lexer.Pending isBreak (.word read) [wordToken read] :=
  pending_of_emitThen rfl fun c hc => by
    rcases isBreak_cases hc with rfl | rfl | rfl | rfl <;> rfl

theorem pending_number (read : Str) :
    lexer.Pending isBreak (.number read) [.number read] :=
  pending_of_emitThen rfl fun c hc => by
    rcases isBreak_cases hc with rfl | rfl | rfl | rfl <;> rfl

theorem pending_fraction (read : Str) :
    lexer.Pending isBreak (.fraction read) [.number read] :=
  pending_of_emitThen rfl fun c hc => by
    rcases isBreak_cases hc with rfl | rfl | rfl | rfl <;> rfl

theorem pending_closing (hquote : isBreak quote = false) (read : Str) :
    lexer.Pending isBreak (.closing quote read) [quotedToken quote read] :=
  pending_of_emitThen rfl fun c hc => if_neg fun heq => by
    rw [heq, hquote] at hc
    cases hc

theorem feed_reads {f : Str → LexState} {p : Char → Bool}
    (hstep : ∀ read c, p c = true → lexStep (f read) c =
      some ([], f (read ++ [c]))) {read w : Str}
    (hw : ∀ c ∈ w, p c = true) : lexer.feed (f read) w =
      some ([], f (read ++ w)) := by
  induction w generalizing read with
  | nil => rw [List.append_nil]; rfl
  | cons c w ih =>
    have hrest : lexer.feed (f (read ++ [c])) w =
        some ([], f (read ++ [c] ++ w)) :=
      ih fun d hd => hw d (List.mem_cons_of_mem _ hd)
    rw [List.append_assoc] at hrest
    exact Transducer.feed_cons (T := lexer)
      (hstep read c (hw c (List.mem_cons_self ..))) hrest

private theorem feed_quoted {read s : Str} : lexer.feed (.quoted quote read)
      (s.flatMap fun x => if x = quote then [quote, quote] else [x]) =
        some ([], .quoted quote (read ++ s)) := by
  induction s generalizing read with
  | nil => rw [List.append_nil]; rfl
  | cons c s ih =>
    have hrest : lexer.feed (.quoted quote (read ++ [c]))
        (s.flatMap fun x => if x = quote then [quote, quote] else [x]) =
          some ([], .quoted quote (read ++ [c] ++ s)) := ih
    rw [List.append_assoc] at hrest
    rw [List.flatMap_cons]
    by_cases hc : c = quote
    · subst hc
      have hclose : lexer.step (.quoted c read) c =
        some ([], .closing c read) := if_pos rfl
      have hopen : lexer.step (.closing c read) c =
        some ([], .quoted c (read ++ [c])) := if_pos rfl
      rw [if_pos rfl]
      exact Transducer.feed_cons hclose (Transducer.feed_cons hopen hrest)
    · have hstep : lexer.step (.quoted quote read) c =
          some ([], .quoted quote (read ++ [c])) := if_neg hc
      rw [if_neg hc]
      exact Transducer.feed_cons hstep hrest

theorem lexes_quoted (hstart : startStep quote = some ([], .quoted quote []))
    (hquote : isBreak quote = false) (s : Str) :
    Lexes (quote :: (Str.replace [quote] [quote, quote] s ++ [quote]))
    [quotedToken quote s] := by
  have hopen : lexer.step .start quote = some ([], .quoted quote []) := hstart
  have hread : lexer.feed (.quoted quote [])
      (s.flatMap fun x => if x = quote then [quote, quote] else [x]) =
        some ([], .quoted quote s) := feed_quoted
  have hclose : lexer.step (.quoted quote s) quote =
    some ([], .closing quote s) := if_pos rfl
  refine ⟨[], .closing quote s, _, ?_, pending_closing hquote s, rfl⟩
  rw [Str.replace_singleton]
  exact Transducer.feed_cons hopen
    (Transducer.feed_append hread (Transducer.feed_cons hclose rfl))

private theorem startStep_word (hc : isWordStart c = true) :
    startStep c = some ([], .word [c]) := by
  have hascii : c.toNat < 128 := by
    rcases Bool.or_eq_true_iff.mp hc with halpha | hscore
    · exact Str.isAlphanum_lt (by rw [Char.isAlphanum, halpha]; rfl)
    · rw [of_decide_eq_true hscore]
      decide
  exact Str.forall_ascii (P := fun c => isWordStart c = true →
    startStep c = some ([], .word [c]))
    (by decide +kernel) c hascii hc

theorem lexes_word {w : Str} (hc : isWordStart c = true)
    (hw : ∀ d ∈ w, isWordPart d = true) :
    Lexes (c :: w) [wordToken (c :: w)] := by
  have hstart : lexer.step .start c = some ([], .word [c]) := startStep_word hc
  have hread : lexer.feed (.word [c]) w = some ([], .word ([c] ++ w)) :=
    feed_reads (f := .word) (p := isWordPart) (fun _ _ hd => if_pos hd) hw
  exact ⟨[], .word (c :: w), _, Transducer.feed_cons hstart hread,
    pending_word _, rfl⟩

theorem startStep_digit (hc : c.isDigit = true) :
    startStep c = some ([], .number [c]) :=
  Str.forall_ascii (P := fun c => c.isDigit = true →
    startStep c = some ([], .number [c]))
    (by decide +kernel) c  (Str.isAlphanum_lt
      (by rw [Char.isAlphanum, hc, Bool.or_true])) hc

theorem feed_digits {q : LexState} {out : List Token} {w : Str}
    (hq : lexer.step q c = some (out, .number [c]))
    (hw : ∀ d ∈ w, d.isDigit = true) :
    lexer.feed q (c :: w) = some (out, .number (c :: w)) := by
  have hread : lexer.feed (.number [c]) w = some ([], .number ([c] ++ w)) :=
    feed_reads (f := .number) (p := Char.isDigit) (fun _ _ hd => if_pos hd) hw
  rw [Transducer.feed_cons hq hread, List.append_nil]
  rfl

theorem step_dash (hc : c.isDigit = true) :
    lexer.step .dash c = some ([.minus], .number [c]) := by
  have hne : c ≠ '-' := by
    rintro rfl
    cases hc
  change (if c = '-' then none else emitThen .minus c) = _
  rw [if_neg hne, emitThen, startStep_digit hc]
  rfl

theorem ofNat_eq_cons (n : Nat) : ∃ c w, Str.ofNat n = c :: w ∧
    c.isDigit = true ∧ ∀ d ∈ w, d.isDigit = true := by
  have hdigits : ∀ c ∈ Str.ofNat n, c.isDigit = true := fun c hc =>
    Nat.isDigit_of_mem_toDigits (by decide) (by decide) hc
  obtain ⟨c, w, hcw⟩ := List.exists_cons_of_ne_nil
    (show Str.ofNat n ≠ [] from Nat.toDigits_ne_nil)
  rw [hcw] at hdigits
  obtain ⟨hc, hw⟩ := List.forall_mem_cons.mp hdigits
  exact ⟨c, w, hcw, hc, hw⟩

theorem lexes_ofNat (n : Nat) :
    Lexes (Str.ofNat n) [.number (Str.ofNat n)] := by
  obtain ⟨c, w, hcw, hc, hw⟩ := ofNat_eq_cons n
  rw [hcw]
  exact ⟨[], .number (c :: w), _, feed_digits (startStep_digit hc) hw,
    pending_number _, rfl⟩

def intTokens (i : Int) : List Token :=
  if i < 0 then [.minus, .number (Str.ofNat i.natAbs)]
  else [.number (Str.ofNat i.natAbs)]

theorem lexes_ofInt (i : Int) : Lexes (Str.ofInt i) (intTokens i) := by
  by_cases hi : i < 0
  · have hsign : lexer.step .start '-' = some ([], .dash) := rfl
    obtain ⟨c, w, hcw, hc, hw⟩ := ofNat_eq_cons i.natAbs
    rw [Str.ofInt, intTokens, if_pos hi, if_pos hi, hcw]
    exact ⟨[.minus], .number (c :: w), _,
      Transducer.feed_cons hsign (feed_digits (step_dash hc)
      hw), pending_number _, rfl⟩
  · rw [Str.ofInt, intTokens, if_neg hi, if_neg hi]
    exact lexes_ofNat _

def IsFraction (text : Str) : Prop :=
  ∃ c w v, text = c :: (w ++ '.' :: v) ∧ c.isDigit = true ∧
    (∀ d ∈ w, d.isDigit = true) ∧ ∀ d ∈ v, d.isDigit = true

theorem IsFraction.feed (h : IsFraction text) {q : LexState} {out : List Token}
    (hq : ∀ c, c.isDigit = true → lexer.step q c = some (out, .number [c])) :
    lexer.feed q text = some (out, .fraction text) := by
  obtain ⟨c, w, v, rfl, hc, hw, hv⟩ := h
  have hpoint : lexer.step (.number (c :: w)) '.' =
    some ([], .fraction (c :: w ++ ['.'])) := rfl
  have hread : lexer.feed (.fraction (c :: w ++ ['.'])) v =
      some ([], .fraction (c :: w ++ ['.'] ++ v)) :=
    feed_reads (f := .fraction) (p := Char.isDigit) (fun _ _ hd => if_pos hd) hv
  have hall := Transducer.feed_append (feed_digits (hq c hc) hw)
    (Transducer.feed_cons hpoint hread)
  rw [List.append_assoc, List.append_nil, List.append_nil] at hall
  exact hall

theorem IsFraction.lexes (h : IsFraction text) : Lexes text [.number text] :=
  ⟨[], .fraction text, _, h.feed fun _ => startStep_digit,
    pending_fraction _, rfl⟩

theorem IsFraction.lexes_neg (h : IsFraction text) :
    Lexes ('-' :: text) [.minus, .number text] := by
  have hsign : lexer.step .start '-' = some ([], .dash) := rfl
  exact ⟨[.minus], .fraction text, _,
    Transducer.feed_cons hsign (h.feed fun _ => step_dash),
    pending_fraction _, rfl⟩

def startsBreak : Str → Bool
  | c :: _ => isBreak c
  | [] => false

section Append

variable {xs ys : Str} {us vs : List Token}

theorem Lexes.thenAll (hxs : Lexes xs us) (hys : LexesAll ys vs)
    (hbreak : startsBreak ys = true) : LexesAll (xs ++ ys) (us ++ vs) := by
  cases ys with
  | nil => cases hbreak
  | cons c ys => exact Transducer.EmitsBefore.append hxs hbreak hys

theorem Lexes.thenText (hxs : Lexes xs us) (hys : Lexes ys vs)
    (hbreak : startsBreak ys = true) : Lexes (xs ++ ys) (us ++ vs) := by
  cases ys with
  | nil => cases hbreak
  | cons c ys => exact Transducer.EmitsBefore.appendBefore hxs hbreak hys

theorem LexesAll.thenText (hxs : LexesAll xs us) (hys : Lexes ys vs) :
    Lexes (xs ++ ys) (us ++ vs) :=
  Transducer.Emits.appendBefore hxs hys

theorem lexes_nil : Lexes [] [] := ⟨[], .start, [], rfl, pending_start, rfl⟩

end Append

theorem lexes_joinWith {ι : Type} {text : ι → Str} {tokens : ι → List Token}
    {is : List ι} (his : ∀ i ∈ is, Lexes (text i) (tokens i)) :
    Lexes (Str.joinWith ", " (is.map text))
    (Parse.separated .comma tokens is) := by
  have hcomma : LexesAll ", " [.comma] := rfl
  -- members are put behind a text that is read already
  have htail : ∀ {js : List ι} {xs : Str} {us : List Token},
      (∀ j ∈ js, Lexes (text j) (tokens j)) → Lexes xs us →
      Lexes (xs ++ js.flatMap fun j => (", " : Str) ++ text j)
        (us ++ js.flatMap fun j => .comma :: tokens j) := by
    intro js
    induction js with
    | nil =>
      intro xs us _ hxs
      rw [List.flatMap_nil, List.flatMap_nil, List.append_nil, List.append_nil]
      exact hxs
    | cons j js ih =>
      intro xs us hjs hxs
      obtain ⟨hj, hjs⟩ := List.forall_mem_cons.mp hjs
      have hmember : Lexes (xs ++ ((", " : Str) ++ text j))
          (us ++ .comma :: tokens j) :=
        hxs.thenText (hcomma.thenText hj) rfl
      have hrest := ih hjs hmember
      rw [append_assoc xs, append_assoc us] at hrest
      exact hrest
  cases is with
  | nil => exact lexes_nil
  | cons i is =>
    obtain ⟨hi, his⟩ := forall_mem_cons.mp his
    rw [map_cons, Str.joinWith_cons, flatMap_map]
    exact htail his hi

end Fuse.Engine
