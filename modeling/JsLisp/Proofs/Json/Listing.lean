/-
Listings keep what they list.

The indented text of a JSON value is a text of that value, so the reader gives the
value back.  Tokens and programs are read off JSON values by the names of their
fields, and the tokens or the program that a listing was made of come back in this
way.
-/
import Mathlib
import JsLisp.Json.Listing
import JsLisp.Proofs.Compile.Stages
import JsLisp.Proofs.Json.Reader

namespace JsLisp
namespace Json

namespace Spelled

variable {parts parts' : List Lexeme} {text text' : List Char}

theorem append (h : Spelled parts text) (h' : Spelled parts' text') :
    Spelled (parts ++ parts') (text ++ text') := by
  induction h with
  | nil => exact h'
  | space hspace _ ih => exact .space hspace ih
  | lexeme hlexeme _ ih =>
    rw [List.append_assoc]
    exact .lexeme hlexeme ih

theorem spaces {blanks : List Char} (hblanks : ∀ c ∈ blanks, isSpace c = true)
    (h : Spelled parts text) : Spelled parts (blanks ++ text) := by
  induction blanks with
  | nil => exact h
  | cons c blanks ih =>
    exact .space (hblanks c List.mem_cons_self)
      (ih fun d hd => hblanks d (List.mem_cons_of_mem c hd))

theorem mark (mark : Mark) (h : Spelled parts text) :
    Spelled (.mark mark :: parts) (mark.char :: text) :=
  .lexeme (.mark mark) h

theorem indent (depth : Nat) (h : Spelled parts text) :
    Spelled parts ((indentation depth).toList ++ text) := by
  refine h.spaces fun c hc => ?_
  rw [indentation, String.toList_ofList] at hc
  rw [List.eq_of_mem_replicate hc]
  rfl

end Spelled

theorem CharText.short_of_eq {c letter value : Char} (h : c = value)
    (hletter : shortEscape? letter = some value) : CharText c ['\\', letter] := by
  rw [h]
  exact .short hletter

-- One case for each branch of the escape, in its order.
theorem charText_escapeChar (c : Char) : CharText c (escapeChar c) := by
  have hcode (n : Nat) (h : c.toNat = n) : c = Char.ofNat n := by rw [← h, Char.ofNat_toNat]
  have hcontrol : ∀ n < 0x20, unit? ['0', '0', hexDigit (n / 16), hexDigit (n % 16)] =
      some (Char.ofNat n) := by decide
  unfold escapeChar
  split
  next h => exact .short_of_eq h rfl
  next hquote =>
  split
  next h => exact .short_of_eq h rfl
  next hslash =>
  split
  next h => exact .short_of_eq h rfl
  split
  next h => exact .short_of_eq h rfl
  split
  next h => exact .short_of_eq h rfl
  split
  next h => exact .short_of_eq (hcode 0x08 h) rfl
  split
  next h => exact .short_of_eq (hcode 0x0C h) rfl
  split
  next h =>
    refine .unit ?_
    rw [hcontrol c.toNat h, Char.ofNat_toNat]
  next h => exact .raw (by omega) hquote hslash

theorem stringText_escape (value : List Char) : StringText value (value.flatMap escapeChar) := by
  induction value with
  | nil => exact .nil
  | cons c value ih => exact .cons (charText_escapeChar c) ih

theorem spelled_quote {parts : List Lexeme} {text : List Char} (value : String)
    (h : Spelled parts text) :
    Spelled (.string value :: parts) ((quote value).toList ++ text) := by
  rw [quote, String.toList_ofList, List.cons_append]
  exact .lexeme (.string (stringText_escape value.toList)) h

/-- The texts spell the parts, one each. -/
inductive SpelledAll : List (List Lexeme) → List String → Prop
  | nil : SpelledAll [] []
  | cons {part : List Lexeme} {parts : List (List Lexeme)} {text : String} {texts : List String}
    (h : Spelled part text.toList) (hrest : SpelledAll parts texts) :
    SpelledAll (part :: parts) (text :: texts)

theorem toList_lines (line next : String) (lines : List String) :
    (",\n".intercalate (line :: next :: lines)).toList =
      line.toList ++ ',' :: '\n' :: (",\n".intercalate (next :: lines)).toList := by
  simp

theorem spelled_lines (depth : Nat) {parts : List (List Lexeme)} {texts : List String}
    (h : SpelledAll parts texts) :
    Spelled (separated parts) (",\n".intercalate (texts.map (indentation depth ++ ·))).toList := by
  induction h with
  | nil => exact .nil
  | @cons part parts text texts h hrest ih =>
    have hline : Spelled part (indentation depth ++ text).toList := by
      rw [String.toList_append]
      exact h.indent depth
    cases hrest with
    | nil =>
      show Spelled (part ++ []) (",\n".intercalate [indentation depth ++ text]).toList
      rw [List.append_nil, String.intercalate_singleton]
      exact hline
    | @cons next parts text' texts h' hrest =>
      rw [List.map_cons, List.map_cons, toList_lines]
      show Spelled (part ++ .mark .comma :: separated (next :: parts)) _
      exact hline.append (.mark .comma (.space rfl ih))

/-- Parts in brackets, each on its line. -/
theorem spelled_block {first last : Mark} {opening closing : String}
    (hopening : opening.toList = [first.char]) (hclosing : closing.toList = [last.char])
    (depth : Nat) {parts : List (List Lexeme)} {texts : List String} (h : SpelledAll parts texts) :
    Spelled (.mark first :: (separated parts ++ [.mark last]))
      (block opening closing depth texts).toList := by
  have hlast : Spelled [.mark last] closing.toList := by
    rw [hclosing]
    exact .mark last .nil
  cases h with
  | nil =>
    rw [block, String.toList_append, hopening]
    exact .mark first hlast
  | @cons part parts text texts h hrest =>
    have hlines := spelled_lines (depth + 1) (.cons h hrest)
    have hbody : Spelled (separated (part :: parts) ++ [.mark last])
        ('\n' :: ((",\n".intercalate ((text :: texts).map (indentation (depth + 1) ++ ·))).toList ++
          '\n' :: ((indentation depth).toList ++ closing.toList))) :=
      .space rfl (hlines.append (.space rfl (hlast.indent depth)))
    have htext : (block opening closing depth (text :: texts)).toList = first.char ::
        ('\n' :: ((",\n".intercalate ((text :: texts).map (indentation (depth + 1) ++ ·))).toList ++
          '\n' :: ((indentation depth).toList ++ closing.toList))) := by
      simp [block, hopening]
    rw [htext]
    exact .mark first hbody

mutual

theorem isText_pretty (value : Json) (depth : Nat) : IsText value (pretty depth value) := by
  cases value with
  | string value =>
    have hquote := spelled_quote value .nil
    rwa [List.append_nil] at hquote
  | array items => exact spelled_block rfl rfl depth (spelledAll_prettyItems items (depth + 1))
  | object fields => exact spelled_block rfl rfl depth (spelledAll_prettyFields fields (depth + 1))

theorem spelledAll_prettyItems (items : List Json) (depth : Nat) :
    SpelledAll (itemLexemes items) (prettyItems depth items) := by
  cases items with
  | nil => exact .nil
  | cons item items => exact .cons (isText_pretty item depth) (spelledAll_prettyItems items depth)

theorem spelledAll_prettyFields (fields : List (String × Json)) (depth : Nat) :
    SpelledAll (fieldLexemes fields) (prettyFields depth fields) := by
  cases fields with
  | nil => exact .nil
  | cons entry fields =>
    obtain ⟨name, value⟩ := entry
    refine .cons ?_ (spelledAll_prettyFields fields depth)
    rw [String.toList_append, String.toList_append, List.append_assoc]
    exact spelled_quote name (.mark .colon (.space rfl (isText_pretty value depth)))

end

theorem read?_pretty (value : Json) : read? (pretty 0 value) = some value :=
  read?_of_isText (isText_pretty value 0)

def string? : Json → Option String
  | string value => some value
  | _ => none

def items? : Json → Option (List Json)
  | array items => some items
  | _ => none

def field? (name : String) : Json → Option Json
  | object fields => fields.lookup name
  | _ => none

theorem sizeOf_lookup_lt {name : String} {fields : List (String × Json)} {value : Json}
    (h : fields.lookup name = some value) : sizeOf value < sizeOf fields := by
  induction fields with
  | nil => cases h
  | cons entry fields ih =>
    obtain ⟨name', value'⟩ := entry
    rw [List.lookup_cons] at h
    split at h
    · cases h
      simp
      omega
    · have := ih h
      simp
      omega

theorem sizeOf_items_lt {name : String} {json : Json} {items : List Json}
    (h : (json.field? name).bind items? = some items) : sizeOf items < sizeOf json := by
  obtain ⟨value, hfield, hitems⟩ := Option.bind_eq_some_iff.1 h
  cases json with
  | object fields =>
    have hlt := sizeOf_lookup_lt hfield
    cases value with
    | array values =>
      cases hitems
      simp at *
      omega
    | _ => cases hitems
  | _ => cases hfield

theorem mapM_map_eq_some {α : Type} {encode : α → Json} {decode : Json → Option α}
    (h : ∀ a, decode (encode a) = some a) (as : List α) :
    (as.map encode).mapM decode = some as := by
  induction as with
  | nil => rfl
  | cons a as ih =>
    rw [List.map_cons, List.mapM_cons, h a, ih]
    rfl

end Json

/-! ## Tokens and programs read back -/

namespace Token

def ofJson? (json : Json) : Option Token := do
  let tag ← (json.field? "kind").bind Json.string?
  let kind ← TokenKind.ofTag? tag
  let text ← (json.field? "text").bind Json.string?
  pure ⟨kind, text⟩

def listOfJson? (json : Json) : Option (List Token) := do
  let items ← json.items?
  items.mapM ofJson?

theorem ofJson?_json (token : Token) : ofJson? token.json = some token := by
  have htag : TokenKind.ofTag? token.kind.tag = some token.kind := by
    cases token.kind <;> rfl
  show ((TokenKind.ofTag? token.kind.tag).bind fun kind => some ⟨kind, token.text⟩) = some token
  rw [htag]
  rfl

theorem listOfJson?_array (tokens : List Token) :
    listOfJson? (.array (tokens.map json)) = some tokens :=
  Json.mapM_map_eq_some ofJson?_json tokens

end Token

namespace Name

/-- A name is read from its segments, of which there is at least one. -/
def ofJson? (json : Json) : Option Name := do
  let items ← (json.field? "segments").bind Json.items?
  match ← items.mapM Json.string? with
  | [] => none
  | head :: members => some ⟨head, members⟩

theorem ofJson?_of_segments {json : Json} {name : Name}
    (h : json.field? "segments" = some (.array (name.segments.map .string))) :
    ofJson? json = some name := by
  have hstring (value : String) : Json.string? (.string value) = some value := rfl
  have hsegments : (name.segments.map Json.string).mapM Json.string? = some name.segments :=
    Json.mapM_map_eq_some hstring name.segments
  rw [ofJson?, h]
  show (((name.segments.map Json.string).mapM Json.string?).bind _) = some name
  rw [hsegments]
  rfl

end Name

namespace Expr

mutual

/-- The tag of a node says which fields it has. -/
def ofJson? (json : Json) : Option Expr :=
  match (json.field? "type").bind Json.string? with
  | some "CallExpression" =>
    match _hitems : (json.field? "arguments").bind Json.items? with
    | some items => do
      let callee ← (json.field? "callee").bind Name.ofJson?
      let args ← listOfJson? items
      pure (.call callee args)
    | none => none
  | some "Identifier" => (Name.ofJson? json).map .name
  | some "StringLiteral" => ((json.field? "value").bind Json.string?).map .string
  | some "NumberLiteral" => ((json.field? "raw").bind Json.string?).map .number
  | _ => none
termination_by sizeOf json
decreasing_by exact Json.sizeOf_items_lt _hitems

def listOfJson? (items : List Json) : Option (List Expr) :=
  match items with
  | [] => some []
  | item :: items => do
    let e ← ofJson? item
    let es ← listOfJson? items
    pure (e :: es)
termination_by sizeOf items
decreasing_by
  all_goals
    simp only [List.cons.sizeOf_spec]
    omega

end

mutual

theorem ofJson?_json (e : Expr) : ofJson? e.json = some e := by
  cases e with
  | call callee args =>
    have hcallee : Name.ofJson? callee.json = some callee := Name.ofJson?_of_segments rfl
    rw [json, ofJson?]
    show ((Name.ofJson? callee.json).bind fun callee =>
      (listOfJson? (jsonAll args)).bind fun args => some (call callee args)) = _
    rw [hcallee, listOfJson?_jsonAll args]
    rfl
  | name n =>
    have hname : Name.ofJson? (json (.name n)) = some n := Name.ofJson?_of_segments rfl
    rw [json] at hname ⊢
    rw [ofJson?]
    show (Name.ofJson? _).map name = _
    rw [hname]
    rfl
  | string value =>
    rw [json, ofJson?]
    rfl
  | number raw =>
    rw [json, ofJson?]
    rfl

theorem listOfJson?_jsonAll (es : List Expr) : listOfJson? (jsonAll es) = some es := by
  cases es with
  | nil => rw [jsonAll, listOfJson?]
  | cons e es =>
    rw [jsonAll, listOfJson?, ofJson?_json e, listOfJson?_jsonAll es]
    rfl

end

end Expr

namespace Program

def ofJson? (json : Json) : Option Program := do
  let items ← (json.field? "body").bind Json.items?
  let body ← Expr.listOfJson? items
  pure ⟨body⟩

theorem ofJson?_json (program : Program) : ofJson? program.json = some program := by
  show ((Expr.listOfJson? (Expr.jsonAll program.body)).bind fun body =>
    some (Program.mk body)) = some program
  rw [Expr.listOfJson?_jsonAll program.body]
  rfl

end Program

/-- The text is a document of this value and of no other, and reading it gives
the value. -/
structure Json.Document (value : Json) (text : String) : Prop where
  isText : value.IsText text
  eq_of_isText : ∀ other : Json, other.IsText text → other = value
  read_eq : Json.read? text = some value

theorem Json.document_pretty (value : Json) : Document value (pretty 0 value) where
  isText := isText_pretty value 0
  eq_of_isText _ h := Option.some.inj ((read?_of_isText h).symm.trans (read?_pretty value))
  read_eq := read?_pretty value

theorem Json.pretty_inj {value value' : Json} (h : pretty 0 value = pretty 0 value') :
    value = value' :=
  (document_pretty value').eq_of_isText value (h ▸ isText_pretty value 0)

theorem listing_tokenize_eq_ok_iff (source text : String) :
    listing .tokenize source = .ok text ↔
      ∃ tokens, tokenize source = .ok tokens ∧
        text = Json.pretty 0 (.array (tokens.map Token.json)) := by
  cases htokens : tokenize source with
  | error error => simp [listing, htokens, bind, Except.bind]
  | ok tokens => simp [listing, htokens, bind, Except.bind, pure, Except.pure, eq_comm]

theorem listing_eq_ok_iff {mode : Mode} (hmode : mode ≠ .tokenize) (source text : String) :
    listing mode source = .ok text ↔
      ∃ program, parse source = .ok program ∧ text = Json.pretty 0 program.json := by
  have hlisting : listing mode source = listing .parse source := by
    cases mode with
    | execute => rfl
    | tokenize => exact absurd rfl hmode
    | parse => rfl
  rw [hlisting]
  cases hprogram : parse source with
  | error error => simp [listing, hprogram, bind, Except.bind]
  | ok program => simp [listing, hprogram, bind, Except.bind, pure, Except.pure, eq_comm]

/-- A listing is one JSON document, from which the tokens or the program of the
source are read back, so that different tokens and different programs have
different listings. -/
theorem listing_faithful :
    (∀ source text, listing .tokenize source = .ok text →
      ∃ tokens value, tokenize source = .ok tokens ∧ Json.Document value text ∧
        Token.listOfJson? value = some tokens) ∧
    (∀ mode source text, mode ≠ .tokenize → listing mode source = .ok text →
      ∃ program value, parse source = .ok program ∧ Json.Document value text ∧
        Program.ofJson? value = some program) ∧
    (∀ tokens tokens' : List Token,
      Json.pretty 0 (.array (tokens.map Token.json)) =
        Json.pretty 0 (.array (tokens'.map Token.json)) → tokens = tokens') ∧
    (∀ program program' : Program,
      Json.pretty 0 program.json = Json.pretty 0 program'.json → program = program') := by
  refine ⟨?_, ?_, ?_, ?_⟩
  · intro source text h
    obtain ⟨tokens, htokens, rfl⟩ := (listing_tokenize_eq_ok_iff source text).1 h
    exact ⟨tokens, _, htokens, Json.document_pretty _, Token.listOfJson?_array tokens⟩
  · intro mode source text hmode h
    obtain ⟨program, hprogram, rfl⟩ := (listing_eq_ok_iff hmode source text).1 h
    exact ⟨program, _, hprogram, Json.document_pretty _, program.ofJson?_json⟩
  · intro tokens tokens' h
    have hjson := Token.listOfJson?_array tokens
    rw [Json.pretty_inj h, Token.listOfJson?_array tokens'] at hjson
    exact (Option.some.inj hjson).symm
  · intro program program' h
    have hjson := program.ofJson?_json
    rw [Json.pretty_inj h, program'.ofJson?_json] at hjson
    exact (Option.some.inj hjson).symm

/-- Control characters in a string, a call without arguments inside one with a
dotted callee, and a name beside a string of the same text. -/
theorem listing_faithful_control_characters :
    (∃ tokens value, tokenize "\"\t\x01\"" = .ok tokens ∧
      Json.Document value
        "[\n  \x7b\n    \"kind\": \"STRING_LITERAL\",\n    \"text\": \"\\t\\u0001\"\n  \x7d\n]" ∧
      Token.listOfJson? value = some tokens) ∧
    (∃ text program value, listing .execute "(a.b \"\n\" (f))" = .ok text ∧
      parse "(a.b \"\n\" (f))" = .ok program ∧ Json.Document value text ∧
      Program.ofJson? value = some program) ∧
    Json.pretty 0 (.array ([⟨.text, "a"⟩].map Token.json)) ≠
      Json.pretty 0 (.array ([⟨.string, "a"⟩].map Token.json)) ∧
    Json.pretty 0 (Program.json ⟨[.name ⟨"a", []⟩]⟩) ≠
      Json.pretty 0 (Program.json ⟨[.string "a"]⟩) := by
  obtain ⟨htokens, hprogram, htokens_inj, hprogram_inj⟩ := listing_faithful
  have htext : listing .tokenize "\"\t\x01\"" = .ok
      "[\n  \x7b\n    \"kind\": \"STRING_LITERAL\",\n    \"text\": \"\\t\\u0001\"\n  \x7d\n]" := by
    cbv
  have hparse : parse "(a.b \"\n\" (f))" =
      .ok ⟨[.call ⟨"a", ["b"]⟩ [.string "\n", .call ⟨"f", []⟩ []]]⟩ := by
    cbv
  have hmode : Mode.execute ≠ .tokenize := by decide
  have hlisting := (listing_eq_ok_iff hmode "(a.b \"\n\" (f))" _).2 ⟨_, hparse, rfl⟩
  obtain ⟨program, value, h⟩ := hprogram .execute _ _ hmode hlisting
  refine ⟨htokens _ _ htext, ⟨_, program, value, hlisting, h⟩, ?_, ?_⟩
  · intro hpretty
    cases htokens_inj _ _ hpretty
  · intro hpretty
    cases hprogram_inj _ _ hpretty

end JsLisp
