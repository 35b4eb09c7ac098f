import ObjectDocument.Deriving.Token

/-!
# The name of a spelled type

A field tells its type as it is spelled, without layout and comments, and with the lifetimes before
the other arguments wherever a type takes arguments. What stands in the brackets of a macro or an
attribute is kept as it is.
-/

namespace ObjectDocument.Deriving

structure Argument where
  isLifetime : Bool
  tokens : List Token
  comma : Bool
  deriving DecidableEq, Repr

namespace Argument

def list (commaBefore : Bool) : List Argument → List Token
  | [] => []
  | a :: rest =>
    (if commaBefore then [] else [.mark ',' false]) ++ a.tokens ++
      (if a.comma then [.mark ',' false] else []) ++ list a.comma rest

def arranged (arguments : List Argument) : List Token :=
  list true (arguments.filter (·.isLifetime) ++ arguments.filter (!·.isLifetime))

end Argument

namespace Token

def keywords : List String :=
  ["as", "const", "mut", "in", "if", "else", "match", "return", "break", "move", "unsafe", "while"]

def endsOperand : Token → Bool
  | .word w => !keywords.contains w
  | .quoted _ | .closing _ => true
  | .lifetime _ | .mark _ _ | .opening _ => false

def startsWithLifetime : List Token → Bool
  | .lifetime _ :: .mark '+' _ :: _ => false
  | .lifetime _ :: _ => true
  | _ => false

def takeGroup (depth : Nat) : List Token → List Token × List Token
  | [] => ([], [])
  | .closing c :: rest =>
    match depth with
    | 0 => ([.closing c], rest)
    | depth + 1 =>
      let (inner, rest) := takeGroup depth rest
      (.closing c :: inner, rest)
  | t :: rest =>
    let (inner, rest) := takeGroup (if t matches .opening _ then depth + 1 else depth) rest
    (t :: inner, rest)

def takeBinder : List Token → List Token × List Token
  | [] => ([], [])
  | .mark '>' joint :: rest => ([.mark '>' joint], rest)
  | t :: rest =>
    let (inner, after) := takeBinder rest
    match t, rest with
    | .mark ':' _, .mark ',' _ :: _ | .mark ':' _, .mark '>' _ :: _ => (inner, after)
    | _, _ => (t :: inner, after)

def prepend (tokens : List Token) (rest : List Token × List Token) : List Token × List Token :=
  (tokens ++ rest.1, rest.2)

mutual

/-- Arranges a type or an expression up to one of the marks in `ends`, a closing bracket or the end,
and gives what follows. After an `operand` an angle bracket opens arguments, if it closes at all;
elsewhere it opens a type to be qualified. -/
def arrange : (fuel : Nat) → (ends : List Char) → (operand : Bool) → List Token →
    List Token × List Token
  | 0, _, _, ts => (ts, [])
  | fuel + 1, ends, operand, ts =>
    match ts with
    | [] => ([], [])
    | .closing c :: rest => ([], .closing c :: rest)
    | .mark '#' j :: .opening c :: rest =>
      let (inner, rest) := takeGroup 0 rest
      prepend ([.mark '#' j, .opening c] ++ inner) (arrange fuel ends operand rest)
    | .word w :: .mark '!' j :: .opening c :: rest =>
      if keywords.contains w then prepend [.word w] (arrange fuel ends false ts.tail)
      else
        let (inner, rest) := takeGroup 0 rest
        prepend ([.word w, .mark '!' j, .opening c] ++ inner) (arrange fuel ends true rest)
    | .word "for" :: .mark '<' j :: rest =>
      let (inner, rest) := takeBinder rest
      let binder := [.word "for", .mark '<' j] ++ inner
      match rest with
      | .mark '?' k :: rest => prepend (.mark '?' k :: binder) (arrange fuel ends false rest)
      | rest => prepend binder (arrange fuel ends false rest)
    | .mark '-' true :: .mark '>' j :: rest =>
      prepend [.mark '-' true, .mark '>' j] (arrange fuel ends false rest)
    | .mark '=' true :: .mark '>' j :: rest =>
      prepend [.mark '=' true, .mark '>' j] (arrange fuel ends false rest)
    | .mark ':' true :: .mark ':' j :: rest =>
      match operand, rest with
      | true, .opening '(' :: _ => arrange fuel ends operand rest
      | _, _ => prepend [.mark ':' true, .mark ':' j] (arrange fuel ends operand rest)
    | .mark '<' j :: rest =>
      if operand then
        match takeArguments fuel rest with
        | (arguments, .mark '>' k :: rest) =>
          prepend (.mark '<' j :: Argument.arranged arguments ++ [.mark '>' k])
            (arrange fuel ends true rest)
        | (arguments, rest) =>
          prepend (.mark '<' j :: Argument.list true arguments) (arrange fuel ends false rest)
      else
        match arrange fuel ['>'] false rest with
        | (inner, .mark '>' k :: rest) =>
          prepend (.mark '<' j :: inner ++ [.mark '>' k]) (arrange fuel ends true rest)
        | (inner, rest) => prepend (.mark '<' j :: inner) (arrange fuel ends false rest)
    | .opening c :: rest =>
      let (inner, rest) := arrange fuel [] false rest
      prepend (.opening c :: inner ++ rest.take 1) (arrange fuel ends true (rest.drop 1))
    | .mark c j :: rest =>
      if ends.contains c then ([], ts)
      else prepend [.mark c j] (arrange fuel ends (operand && c == '?') rest)
    | t :: rest => prepend [t] (arrange fuel ends t.endsOperand rest)

def takeArguments : (fuel : Nat) → List Token → List Argument × List Token
  | 0, ts => ([], ts)
  | fuel + 1, ts =>
    match arrange fuel [',', '>'] false ts with
    | (tokens, .mark ',' _ :: rest) =>
      let (arguments, rest) := takeArguments fuel rest
      (⟨startsWithLifetime ts, tokens, true⟩ :: arguments, rest)
    | ([], rest) => ([], rest)
    | (tokens, rest) => ([⟨startsWithLifetime ts, tokens, false⟩], rest)

end

end Token

/-- The name of a type that is spelled so. A token takes two calls at most. -/
def typeNameOf (spelling : String) : String :=
  let tokens := Token.ofText spelling
  let arranged := (Token.arrange (2 * tokens.length + 2) [] false tokens).1
  String.ofList ((Token.plain arranged).toList.filter (· ≠ ' '))

def hasParameters (spelling : String) : Bool :=
  match Token.ofText spelling with
  | .mark '<' _ :: .mark '>' _ :: _ => false
  | .mark '<' _ :: _ => true
  | _ => false

end ObjectDocument.Deriving
