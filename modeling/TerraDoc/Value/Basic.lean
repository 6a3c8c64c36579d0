import TerraDoc.Dictionary
import TerraDoc.Number.Literal

namespace TerraDoc

/-- Why an expression or a text has no literal value. -/
inductive LiteralError where
  | number (cause : NumberError)
  | duplicateKey (key : String)
  /-- The expression is not made of literals only. -/
  | notLiteral (expression : String)
  | keyKind (key kind : String)
  | notQuoted (text : String)
  | escape (quoted : String)
  | unicodeEscape (quoted : String)
  | inDefault (declared : String) (cause : LiteralError)
deriving DecidableEq, Repr

def LiteralError.message : LiteralError → String
  | .number cause => cause.message
  | .duplicateKey key => "duplicate key in object: " ++ key
  | .notLiteral expression => "`" ++ expression ++ "` is not a literal value"
  | .keyKind key kind => "object key `" ++ key ++ "` must be a string, found " ++ kind
  | .notQuoted text => "`" ++ text ++ "` is not a quoted string"
  | .escape quoted => "invalid escape sequence in " ++ quoted
  | .unicodeEscape quoted => "invalid unicode escape in " ++ quoted
  | .inDefault declared cause => "default of variable " ++ declared ++ ": " ++ cause.message

/-- A literal. Sequences keep order and length; the entries of a map are a `Dictionary`. -/
inductive Value where
  | str (text : String)
  | num (n : Number)
  | bool (b : Bool)
  | seq (items : List Value)
  | map (entries : List (String × Value))
deriving Inhabited

namespace Value

@[elab_as_elim]
theorem induction {motive : Value → Prop} (str : ∀ text, motive (.str text))
    (num : ∀ n, motive (.num n)) (bool : ∀ b, motive (.bool b))
    (seq : ∀ items, (∀ item ∈ items, motive item) → motive (.seq items))
    (map : ∀ entries, (∀ entry ∈ entries, motive entry.2) → motive (.map entries)) :
    ∀ value, motive value
  | .str text => str text
  | .num n => num n
  | .bool b => bool b
  | .seq items => seq items fun item _ => induction str num bool seq map item
  | .map entries => map entries fun entry membership =>
      have : sizeOf entry.2 < 1 + sizeOf entries := by
        have inside := List.sizeOf_lt_of_mem membership
        cases entry
        simp only [Prod.mk.sizeOf_spec] at *
        omega
      induction str num bool seq map entry.2

/-- The map of some entries, whose keys must differ. -/
def ofEntries (entries : List (String × Value)) : Except LiteralError Value :=
  match Dictionary.repeated? entries with
  | some key => .error (.duplicateKey key)
  | none => .ok (.map (Dictionary.ofList entries))

def asString? : Value → Option String
  | .str text => some text
  | _ => none

def kind : Value → String
  | .str _ => "string"
  | .num _ => "number"
  | .bool _ => "bool"
  | .seq _ => "sequence"
  | .map _ => "map"

mutual

/-- Strings as they are, numbers in plain decimals, `[a, b]` and `{k=v, …}`. -/
def canonicalText : Value → List Char
  | .str text => text.toList
  | .num n => n.text
  | .bool b => (if b then "true" else "false").toList
  | .seq items => '[' :: (itemTexts items ++ [']'])
  | .map entries => '{' :: (entryTexts entries ++ ['}'])

private def itemTexts : List Value → List Char
  | [] => []
  | [item] => item.canonicalText
  | item :: rest => item.canonicalText ++ ',' :: ' ' :: itemTexts rest

private def entryTexts : List (String × Value) → List Char
  | [] => []
  | [(key, value)] => key.toList ++ '=' :: value.canonicalText
  | (key, value) :: rest =>
      key.toList ++ '=' :: (value.canonicalText ++ ',' :: ' ' :: entryTexts rest)

end

def canonical (value : Value) : String :=
  String.ofList value.canonicalText

private theorem itemTexts_eq : ∀ items : List Value,
    itemTexts items = [',', ' '].intercalate (items.map canonicalText)
  | [] => rfl
  | [item] => by rw [itemTexts, List.map_singleton, List.intercalate_singleton]
  | item :: other :: rest => by
    simp only [itemTexts, itemTexts_eq (other :: rest), List.map_cons, List.intercalate_cons_cons,
      List.append_assoc, List.cons_append, List.nil_append]

/-- The canonical text of an entry of a map. -/
def canonicalEntry (entry : String × Value) : List Char :=
  entry.1.toList ++ '=' :: entry.2.canonicalText

private theorem entryTexts_eq : ∀ entries : List (String × Value),
    entryTexts entries = [',', ' '].intercalate (entries.map canonicalEntry)
  | [] => rfl
  | [(key, value)] => by
    rw [entryTexts, List.map_singleton, List.intercalate_singleton, canonicalEntry]
  | (key, value) :: other :: rest => by
    simp only [entryTexts, entryTexts_eq (other :: rest), List.map_cons,
      List.intercalate_cons_cons, canonicalEntry, List.append_assoc, List.cons_append,
      List.nil_append]

theorem canonicalText_seq (items : List Value) :
    (seq items).canonicalText =
      '[' :: ([',', ' '].intercalate (items.map canonicalText) ++ [']']) := by
  rw [canonicalText, itemTexts_eq]

theorem canonicalText_map (entries : List (String × Value)) :
    (map entries).canonicalText =
      '{' :: ([',', ' '].intercalate (entries.map canonicalEntry) ++ ['}']) := by
  rw [canonicalText, entryTexts_eq]

end Value

end TerraDoc
