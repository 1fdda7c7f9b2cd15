import ArrowScript.Document
import ArrowScript.Text.Printable
import ArrowScript.Text.Utf8

namespace ArrowScript.Text

/-!
# Texts in quotes

`quoted` shows a text between quotes so that every character of it can be told
apart: the chosen quote, the backslash and everything that is not printable is
escaped.
-/

/-- A character as it stands between quotes. -/
def quotedCharacter (quote character : Char) : String :=
  let code := character.toNat
  if character = quote || character = '\\' then String.ofList ['\\', character]
  else if character = '\n' then "\\n"
  else if character = '\r' then "\\r"
  else if character = '\t' then "\\t"
  else if isPrintable character then String.ofList [character]
  else if code < 0x100 then "\\x" ++ Document.hexadecimal 2 code
  else if code < 0x10000 then "\\u" ++ Document.hexadecimal 4 code
  else "\\U" ++ Document.hexadecimal 8 code

/-- Single quotes, unless the text has a single quote and no double quote. -/
def chooseQuote (text : String) : Char :=
  if text.toList.contains '\'' && !text.toList.contains '"' then '"' else '\''

def quoted (text : String) : String :=
  let quote := chooseQuote text
  String.ofList [quote] ++ String.join (text.toList.map (quotedCharacter quote)) ++
    String.ofList [quote]

def DecodeError.message (error : DecodeError) : String :=
  let subject :=
    match error.bytes with
    | [byte] =>
        "byte 0x" ++ Document.hexadecimal 2 byte.toNat ++ " in position " ++
          Number.digits error.offset
    | bytes =>
        "bytes in position " ++ Number.digits error.offset ++ "-" ++
          Number.digits (error.offset + bytes.length - 1)
  "'utf-8' codec can't decode " ++ subject ++ ": " ++ error.fault.reason

end ArrowScript.Text
