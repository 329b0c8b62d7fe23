import QueryTidy.Token.Basic

/-! Token listings, one token a line. -/
namespace QueryTidy.Token

def dumpLine (index : Nat) (token : Token) : String :=
  String.ofList ((Nat.toDigits 10 index).leftpad 3 '0') ++ " "
    ++ String.ofList (token.kind.name.toList.rightpad 14 ' ') ++ " text="
    ++ String.ofList token.text.quoted

def fileLine (index : Int) (token : Token) : String :=
  "[" ++ toString index ++ "] kind=" ++ token.kind.name ++ " text="
    ++ String.ofList token.text.quoted

def dump (tokens : List Token) : String :=
  String.join (tokens.mapIdx fun i token => dumpLine i token ++ "\n")

end QueryTidy.Token
