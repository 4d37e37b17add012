/-
# Styles

Texts with an icon in front, and the terminal codes for colours around them.
-/

namespace ReleaseLint

/-- A style: terminal codes without the escape character and the bracket. -/
structure Style where
  codes : List String
deriving DecidableEq, Repr, Inhabited

namespace Style

/-- No style. -/
def plain : Style := ⟨[]⟩

/-- Green text. -/
def green : Style := ⟨["32m"]⟩

/-- Orange text. -/
def orange : Style := ⟨["38;5;208m"]⟩

/-- Red text. -/
def red : Style := ⟨["31m"]⟩

/-- Red text in bold letters. -/
def boldRed : Style := ⟨["31m", "1m"]⟩

/-- The character that begins a terminal code. -/
def escape : String := "\x1b["

/-- A text in a style. -/
def apply (s : Style) (text : String) : String :=
  if s.codes.isEmpty then text
  else String.join (s.codes.map (escape ++ ·)) ++ text ++ escape ++ "0m"

end Style

/-- The styles of texts for success, warnings and errors. -/
structure Theme where
  success : Style
  warning : Style
  error : Style
deriving DecidableEq, Repr, Inhabited

namespace Theme

/-- The theme with or without colours. -/
def choose (color : Bool) : Theme :=
  if color then ⟨.green, .orange, .boldRed⟩ else ⟨.plain, .plain, .plain⟩

/-- A text that reports success. -/
def successText (t : Theme) (text : String) : String :=
  t.success.apply ("✓ " ++ text)

/-- A text that warns. -/
def warningText (t : Theme) (text : String) : String :=
  t.warning.apply ("⚠ " ++ text)

/-- A text that reports an error. -/
def errorText (t : Theme) (text : String) : String :=
  t.error.apply ("✗ " ++ text)

end Theme
end ReleaseLint
