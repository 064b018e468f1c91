import DeclLang.Syntax.Basic
import DeclLang.Token.Basic

/-!
# Grammar: which tokens spell which program

The rules of the declaration syntax, one relation for each kind of phrase, between the tokens of a
phrase and the syntax that they stand for. Nothing here is about how tokens are read. A phrase that
ends with its line also depends on what comes after it, since the last line of a file needs no line
feed.
-/

namespace DeclLang

/-! ## Types -/

/-- Type names start with an uppercase letter. -/
inductive SpellsTypeName : List Token → Ident → Prop where
  | ident {name : String} {c : Char} {cs : List Char} {span : Span} :
      name.toList = c :: cs → 'A' ≤ c → c ≤ 'Z' → SpellsTypeName [⟨.ident name, span⟩] ⟨name, span⟩

/-- `T`, or `T [ type ]`. -/
inductive SpellsType : List Token → TypeExpr → Prop where
  | named {ts : List Token} {name : Ident} : SpellsTypeName ts name → SpellsType ts (.named name)
  | generic {ts inner : List Token} {base : Ident} {arg : TypeExpr} {opening closing : Span} :
      SpellsTypeName ts base → SpellsType inner arg →
      SpellsType
        (ts ++ ⟨.punctuation .leftBracket, opening⟩ :: inner ++
          [⟨.punctuation .rightBracket, closing⟩])
        (.generic base.value arg (base.span.merge closing))

/-! ## Methods -/

/-- `name : type` -/
inductive SpellsParameter : List Token → Parameter → Prop where
  | typed {name : String} {type : TypeExpr} {ts : List Token} {span colon : Span} :
      SpellsType ts type →
      SpellsParameter (⟨.ident name, span⟩ :: ⟨.punctuation .colon, colon⟩ :: ts)
        ⟨name, type, span.merge type.span⟩

/-- One or more parameters with commas between them. -/
inductive SpellsParameters : List Token → List Parameter → Prop where
  | last {ts : List Token} {p : Parameter} : SpellsParameter ts p → SpellsParameters ts [p]
  | more {ts us : List Token} {p : Parameter} {ps : List Parameter} {comma : Span} :
      SpellsParameter ts p → SpellsParameters us ps →
      SpellsParameters (ts ++ ⟨.punctuation .comma, comma⟩ :: us) (p :: ps)

/-- Nothing, or parentheses with any number of parameters. -/
inductive SpellsParameterList : List Token → List Parameter → Prop where
  | absent : SpellsParameterList [] []
  | empty {opening closing : Span} :
      SpellsParameterList
        [⟨.punctuation .leftParen, opening⟩, ⟨.punctuation .rightParen, closing⟩] []
  | parameters {ts : List Token} {ps : List Parameter} {opening closing : Span} :
      SpellsParameters ts ps →
      SpellsParameterList
        (⟨.punctuation .leftParen, opening⟩ :: ts ++ [⟨.punctuation .rightParen, closing⟩]) ps

/-- Nothing, or `: type`. -/
inductive SpellsReturn : List Token → Option TypeExpr → Prop where
  | absent : SpellsReturn [] none
  | type {ts : List Token} {t : TypeExpr} {colon : Span} :
      SpellsType ts t → SpellsReturn (⟨.punctuation .colon, colon⟩ :: ts) (some t)

/-- An identifier; one that an `=` touches, which makes it the name of a setter; an operator; `[]`
    or `[]=`. -/
inductive SpellsMethodName : List Token → Ident → Prop where
  | ident {name : String} {span : Span} : SpellsMethodName [⟨.ident name, span⟩] ⟨name, span⟩
  | setter {name : String} {span eq : Span} : eq.start = span.stop →
      SpellsMethodName [⟨.ident name, span⟩, ⟨.operator "=", eq⟩] ⟨name ++ "=", span.merge eq⟩
  | operator {text : String} {span : Span} :
      SpellsMethodName [⟨.operator text, span⟩] ⟨text, span⟩
  | index {opening closing : Span} :
      SpellsMethodName
        [⟨.punctuation .leftBracket, opening⟩, ⟨.punctuation .rightBracket, closing⟩]
        ⟨"[]", opening.merge closing⟩
  | indexSetter {opening closing eq : Span} :
      SpellsMethodName
        [⟨.punctuation .leftBracket, opening⟩, ⟨.punctuation .rightBracket, closing⟩,
          ⟨.operator "=", eq⟩]
        ⟨"[]=", opening.merge eq⟩

/-- The name of a foreign function is a plain identifier. -/
inductive SpellsFunctionName : List Token → Ident → Prop where
  | ident {name : String} {span : Span} : SpellsFunctionName [⟨.ident name, span⟩] ⟨name, span⟩

/-- A keyword, a name, parameters and a return type. -/
inductive SpellsSignature (k : Keyword) (SpellsName : List Token → Ident → Prop) :
    List Token → MethodDecl → Prop where
  | intro {name : Ident} {parameters : List Parameter} {returns : Option TypeExpr}
      {ns ps rs : List Token} {span : Span} :
      SpellsName ns name → SpellsParameterList ps parameters → SpellsReturn rs returns →
      SpellsSignature k SpellsName (⟨.keyword k, span⟩ :: (ns ++ ps ++ rs))
        ⟨name, parameters, returns⟩

abbrev SpellsMethod : List Token → MethodDecl → Prop :=
  SpellsSignature .method SpellsMethodName

abbrev SpellsFunction : List Token → MethodDecl → Prop :=
  SpellsSignature .function SpellsFunctionName

/-- `include T` -/
inductive SpellsInclusion : List Token → Ident → Prop where
  | intro {ts : List Token} {module : Ident} {span : Span} :
      SpellsTypeName ts module → SpellsInclusion (⟨.keyword .inclusion, span⟩ :: ts) module

inductive SpellsMember : List Token → Member → Prop where
  | method {ts : List Token} {m : MethodDecl} : SpellsMethod ts m → SpellsMember ts (.method m)
  | inclusion {ts : List Token} {module : Ident} :
      SpellsInclusion ts module → SpellsMember ts (.inclusion module)

/-! ## Headers -/

/-- `class T`, or `class T < T`. -/
inductive SpellsClassHeader : List Token → Ident × Option Ident → Prop where
  | root {ts : List Token} {name : Ident} {span : Span} :
      SpellsTypeName ts name → SpellsClassHeader (⟨.keyword .classBlock, span⟩ :: ts) (name, none)
  | inheriting {ts us : List Token} {name superclass : Ident} {span mark : Span} :
      SpellsTypeName ts name → SpellsTypeName us superclass →
      SpellsClassHeader (⟨.keyword .classBlock, span⟩ :: (ts ++ ⟨.operator "<", mark⟩ :: us))
        (name, some superclass)

/-- `module T` -/
inductive SpellsModuleHeader : List Token → Ident → Prop where
  | intro {ts : List Token} {name : Ident} {span : Span} :
      SpellsTypeName ts name → SpellsModuleHeader (⟨.keyword .moduleBlock, span⟩ :: ts) name

/-- `lib T`, or `lib T ( "libname" )`. -/
inductive SpellsLibHeader : List Token → Ident × Option (Located String) → Prop where
  | unlinked {ts : List Token} {name : Ident} {span : Span} :
      SpellsTypeName ts name → SpellsLibHeader (⟨.keyword .libBlock, span⟩ :: ts) (name, none)
  | linked {ts : List Token} {name : Ident} {libname : String} {span opening at_ closing : Span} :
      SpellsTypeName ts name →
      SpellsLibHeader
        (⟨.keyword .libBlock, span⟩ :: (ts ++
          [⟨.punctuation .leftParen, opening⟩, ⟨.string libname, at_⟩,
            ⟨.punctuation .rightParen, closing⟩]))
        (name, some ⟨libname, at_⟩)

/-- `primitive T < T : tag size`, where the size is one of 32 bits. -/
inductive SpellsPrimitive : List Token → Declaration → Prop where
  | intro {ts us : List Token} {name superclass : Ident} {tag : String} {size : Nat}
      {span mark colon tagSpan sizeSpan : Span} :
      SpellsTypeName ts name → SpellsTypeName us superclass → size ≤ 4294967295 →
      SpellsPrimitive
        (⟨.keyword .primitive, span⟩ :: (ts ++ ⟨.operator "<", mark⟩ :: us ++
          [⟨.punctuation .colon, colon⟩, ⟨.ident tag, tagSpan⟩, ⟨.int size, sizeSpan⟩]))
        (.primitive name superclass ⟨tag, tagSpan⟩ ⟨size, sizeSpan⟩)

/-! ## Blocks and files -/

/-- The stretch from the first token to the last. -/
def extent (ts : List Token) : Span :=
  match ts.head?, ts.getLast? with
  | some first, some last => first.span.merge last.span
  | _, _ => .point 0

/-- The tokens that end a line before the given rest: a line feed, or nothing at the end of the
    file. -/
inductive EndsLine : List Token → List Token → Prop where
  | newline {span : Span} {rest : List Token} : EndsLine [⟨.newline, span⟩] rest
  | endOfFile : EndsLine [] []

/-- The lines of a block before the given rest: blank ones and one for each item. -/
inductive SpellsBody {α : Type} (SpellsItem : List Token → α → Prop) :
    List Token → List Token → List (Located α) → Prop where
  | nil {rest : List Token} : SpellsBody SpellsItem [] rest []
  | blank {ts rest : List Token} {items : List (Located α)} {span : Span} :
      SpellsBody SpellsItem ts rest items →
      SpellsBody SpellsItem (⟨.newline, span⟩ :: ts) rest items
  | item {ts ending us rest : List Token} {a : α} {items : List (Located α)} :
      SpellsItem ts a → EndsLine ending (us ++ rest) → SpellsBody SpellsItem us rest items →
      SpellsBody SpellsItem (ts ++ ending ++ us) rest (⟨a, extent (ts ++ ending)⟩ :: items)

/-- A header, a body and `end`, each ending its line. -/
inductive SpellsBlock {α β : Type} (SpellsHeader : List Token → β → Prop)
    (SpellsItem : List Token → α → Prop) :
    List Token → List Token → β → List (Located α) → Prop where
  | intro {header ending body ending' rest : List Token} {b : β} {items : List (Located α)}
      {span : Span} :
      SpellsHeader header b →
      EndsLine ending (body ++ ⟨.keyword .blockEnd, span⟩ :: ending' ++ rest) →
      SpellsBody SpellsItem body (⟨.keyword .blockEnd, span⟩ :: ending' ++ rest) items →
      EndsLine ending' rest →
      SpellsBlock SpellsHeader SpellsItem
        (header ++ ending ++ body ++ ⟨.keyword .blockEnd, span⟩ :: ending') rest b items

/-- The lines of one declaration before the given rest. -/
inductive SpellsDeclaration : List Token → List Token → Declaration → Prop where
  | classBlock {ts rest : List Token} {name : Ident} {superclass : Option Ident}
      {members : List (Located Member)} :
      SpellsBlock SpellsClassHeader SpellsMember ts rest (name, superclass) members →
      SpellsDeclaration ts rest (.classBlock name superclass members)
  | moduleBlock {ts rest : List Token} {name : Ident} {members : List (Located Member)} :
      SpellsBlock SpellsModuleHeader SpellsMember ts rest name members →
      SpellsDeclaration ts rest (.moduleBlock name members)
  | libBlock {ts rest : List Token} {name : Ident} {libname : Option (Located String)}
      {functions : List (Located MethodDecl)} :
      SpellsBlock SpellsLibHeader SpellsFunction ts rest (name, libname) functions →
      SpellsDeclaration ts rest (.libBlock name libname functions)
  | primitive {ts ending rest : List Token} {d : Declaration} :
      SpellsPrimitive ts d → EndsLine ending rest → SpellsDeclaration (ts ++ ending) rest d
  | method {ts ending rest : List Token} {m : MethodDecl} :
      SpellsMethod ts m → EndsLine ending rest → SpellsDeclaration (ts ++ ending) rest (.method m)
  | inclusion {ts ending rest : List Token} {module : Ident} :
      SpellsInclusion ts module → EndsLine ending rest →
      SpellsDeclaration (ts ++ ending) rest (.inclusion module)

/-- A file: blank lines and declarations. -/
inductive SpellsProgram : List Token → Program → Prop where
  | nil : SpellsProgram [] []
  | blank {ts : List Token} {p : Program} {span : Span} :
      SpellsProgram ts p → SpellsProgram (⟨.newline, span⟩ :: ts) p
  | declaration {ts rest : List Token} {d : Declaration} {p : Program} :
      SpellsDeclaration ts rest d → SpellsProgram rest p →
      SpellsProgram (ts ++ rest) (⟨d, extent ts⟩ :: p)

end DeclLang
