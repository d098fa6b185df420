/-!
# Bytes with names

The bytes that have a meaning somewhere in the formats of this library, by the
names of the characters they encode. All of them can stand in patterns.
-/

namespace Reckon

namespace Ascii

/-! ## Blanks -/

@[match_pattern] abbrev tab : UInt8 := 9

@[match_pattern] abbrev newline : UInt8 := 10

@[match_pattern] abbrev carriageReturn : UInt8 := 13

@[match_pattern] abbrev space : UInt8 := 32

/-! ## Marks -/

@[match_pattern] abbrev bang : UInt8 := 33

@[match_pattern] abbrev quote : UInt8 := 34

@[match_pattern] abbrev leftParen : UInt8 := 40

@[match_pattern] abbrev rightParen : UInt8 := 41

@[match_pattern] abbrev star : UInt8 := 42

@[match_pattern] abbrev plus : UInt8 := 43

@[match_pattern] abbrev comma : UInt8 := 44

@[match_pattern] abbrev minus : UInt8 := 45

@[match_pattern] abbrev point : UInt8 := 46

@[match_pattern] abbrev slash : UInt8 := 47

@[match_pattern] abbrev colon : UInt8 := 58

@[match_pattern] abbrev semicolon : UInt8 := 59

@[match_pattern] abbrev less : UInt8 := 60

@[match_pattern] abbrev equals : UInt8 := 61

@[match_pattern] abbrev greater : UInt8 := 62

@[match_pattern] abbrev backslash : UInt8 := 92

@[match_pattern] abbrev underscore : UInt8 := 95

@[match_pattern] abbrev backtick : UInt8 := 96

@[match_pattern] abbrev leftBrace : UInt8 := 123

@[match_pattern] abbrev rightBrace : UInt8 := 125

@[match_pattern] abbrev tilde : UInt8 := 126

/-! ## Digits and letters -/

@[match_pattern] abbrev zero : UInt8 := 48

@[match_pattern] abbrev nine : UInt8 := 57

@[match_pattern] abbrev capitalA : UInt8 := 65

@[match_pattern] abbrev capitalT : UInt8 := 84

@[match_pattern] abbrev capitalU : UInt8 := 85

@[match_pattern] abbrev capitalZ : UInt8 := 90

@[match_pattern] abbrev smallA : UInt8 := 97

@[match_pattern] abbrev smallE : UInt8 := 101

@[match_pattern] abbrev smallT : UInt8 := 116

@[match_pattern] abbrev smallU : UInt8 := 117

@[match_pattern] abbrev smallX : UInt8 := 120

@[match_pattern] abbrev smallZ : UInt8 := 122

end Ascii

end Reckon
