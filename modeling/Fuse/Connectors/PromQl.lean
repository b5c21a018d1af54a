import Fuse.Connectors.SqlText

/-!
# Strings of PromQL and InfluxQL

The escaping of string values that the Prometheus and the InfluxDB connector
share.
-/

namespace Fuse.Connectors

open Foundation Fuse.Core List

def sanitizeValue (quote : Char) (s : Str) : Str :=
  Str.replace ['\x00'] [] (Str.replace ['\r'] "\\r" (Str.replace ['\n'] "\\n"
    (Str.replace [quote] ['\\', quote] (Str.replace ['\\'] "\\\\" s))))

def sanitizePromqlValue : Str → Str := sanitizeValue '"'

def sanitizeInfluxql : Str → Str := sanitizeValue '\''

def unescaped : Char → Char
  | 'n' => '\n'
  | 'r' => '\r'
  | c => c

/-- A string literal behind its opening quote: the text it stands for and what
follows the closing quote. -/
def readString (quote : Char) : Str → Option (Str × Str)
  | [] => none
  | '\\' :: c :: s =>
    (readString quote s).map fun (text, rest) => (unescaped c :: text, rest)
  | c :: s =>
    if c = quote then some ([], s)
    else (readString quote s).map fun (text, rest) => (c :: text, rest)

theorem readString_plain {quote c : Char} (hescape : c ≠ '\\') (s : Str) :
    readString quote (c :: s) = if c = quote then some ([], s)
      else (readString quote s).map fun (text, rest) => (c :: text, rest) := by
  rw [readString]
  simp [hescape]

def escapedChar (quote c : Char) : Str :=
  if c = '\x00' then [] else if c = '\n' then "\\n" else if c = '\r' then "\\r"
  else if c = '\\' ∨ c = quote then ['\\', c] else [c]

section Escaping

variable {quote : Char} (hquote : quote = '"' ∨ quote = '\'')

include hquote

private theorem sanitizeValue_eq (s : Str) :
    sanitizeValue quote s = s.flatMap (escapedChar quote) := by
  simp only [sanitizeValue, Str.replace_singleton, flatMap_assoc]
  refine flatMap_congr fun c _ => ?_
  unfold escapedChar
  rcases hquote with rfl | rfl <;> split_ifs <;> simp_all

/-- The escaped text is read back up to its NUL characters, whatever follows. -/
theorem readString_sanitized (s rest : Str) :
    readString quote (sanitizeValue quote s ++ quote :: rest) =
      some (s.filter (· ≠ '\x00'), rest) := by
  have hplain : quote ≠ '\\' := by rcases hquote with rfl | rfl <;> decide
  rw [sanitizeValue_eq hquote]
  induction s with
  | nil => simp [readString_plain hplain]
  | cons c s ih =>
    rw [flatMap_cons, append_assoc, escapedChar]
    split_ifs with hnul hline hreturn hescape
    · simp [hnul, ih]
    · simp [hline, readString, ih, unescaped]
    · simp [hreturn, readString, ih, unescaped]
    · have hunescaped : unescaped c = c := by
        rcases hescape with rfl | rfl
        · rfl
        · rcases hquote with rfl | rfl <;> rfl
      simp [readString, ih, hnul, hunescaped]
    · obtain ⟨hslash, hother⟩ := not_or.mp hescape
      simp [readString_plain hslash, hother, ih, hnul]

theorem readString_exact {s : Str} (hs : '\x00' ∉ s) (rest : Str) :
    readString quote (sanitizeValue quote s ++ quote :: rest) =
      some (s, rest) := by
  rw [readString_sanitized hquote, filter_eq_self.mpr]
  intro c hc
  simpa using ne_of_mem_of_not_mem hc hs

theorem sanitizeValue_injective {s t : Str} (hs : '\x00' ∉ s) (ht : '\x00' ∉ t)
    (h : sanitizeValue quote s = sanitizeValue quote t) : s = t := by
  have hread := readString_exact hquote hs []
  rw [h, readString_exact hquote ht] at hread
  cases hread
  rfl

end Escaping

/--
A value without NUL is read back from its literal, which ends at the closing
quote; two such values have different literals.
-/
theorem sanitized_values_exact (s t rest : Str) (hs : '\x00' ∉ s)
    (ht : '\x00' ∉ t) :
    readString '"' (sanitizePromqlValue s ++ '"' :: rest) = some (s, rest) ∧
    readString '\'' (sanitizeInfluxql s ++ '\'' :: rest) = some (s, rest) ∧
    (sanitizePromqlValue s = sanitizePromqlValue t → s = t) ∧
    (sanitizeInfluxql s = sanitizeInfluxql t → s = t) :=
  ⟨readString_exact (.inl rfl) hs rest, readString_exact (.inr rfl) hs rest,
    sanitizeValue_injective (.inl rfl) hs ht,
    sanitizeValue_injective (.inr rfl) hs ht⟩

theorem quoted_path_exact :
    readString '"' (sanitizePromqlValue "C:\\a \"b\"" ++ '"' :: ", x".toList) =
      some ("C:\\a \"b\"".toList, ", x".toList) :=
  (sanitized_values_exact _ [] _ (by decide) (by decide)).1

end Fuse.Connectors
