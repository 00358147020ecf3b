import Clerk.Proofs.JsonText
import Clerk.Puzzle.File

/-!
# Reading a puzzle file back

A puzzle file that was written is read as the puzzle it was written for.  The text is cut into the
tokens of an object (`PuzzleFile.readsTo_json`), and from these the members are read one by one
(`PuzzleFile.ofTokens?_tokens`).
-/

set_option autoImplicit false

namespace Clerk.PuzzleFile

open Json

/-! ## Strings, sizes and values -/

theorem text?_string (s : String) : text? [.string (s.toList.map pieceOf)] = some s := by
  rw [text?, assemble_map_pieceOf, Option.map_some, String.ofList_toList]

theorem size?_integer (n : UInt64) : size? [.integer false n.toNat] = some n := by
  rw [size?, dif_pos n.toNat_lt, UInt64.ofNatLT_toNat]

/-- The token of a value tells which kind of value it was written for. -/
theorem value?_token (value : Value) : value? [value.token] = some value := by
  cases value with
  | number n =>
    by_cases hneg : n.val < 0
    · have hmagnitude : n.val.natAbs ≠ 0 := by omega
      have hval : -(n.val.natAbs : Int) = n.val := by omega
      rw [Value.token, decide_eq_true hneg, value?, if_neg hmagnitude, hval, Number.ofInt?_val]
      rfl
    · have hval : (n.val.natAbs : Int) = n.val := by omega
      rw [Value.token, decide_eq_false hneg, value?, hval, Number.ofInt?_val]
      rfl
  | character c =>
    have hchar : assemble [pieceOf c] = some [c] := assemble_map_pieceOf [c]
    rw [Value.token, value?, hchar]
  | empty => rfl

/-- The tokens of a list of values. -/
def valuesTokens (values : List Value) : List Token :=
  listTokens (values.map fun value => [value.token])

theorem mapM_value? (values : List Value) :
    (values.map fun value => [value.token]).mapM value? = some values := by
  induction values with
  | nil => rfl
  | cons value rest ih => rw [List.map_cons, List.mapM_cons, value?_token, ih]; rfl

theorem values?_valuesTokens (values : List Value) :
    values? (valuesTokens values) = some values := by
  have hitems : items ([.comma].intercalate (values.map fun value => [value.token])) =
      values.map fun value => [value.token] := by
    refine items_intercalate fun part hmem => ?_
    obtain ⟨value, -, rfl⟩ := List.mem_map.1 hmem
    exact ⟨value.keptFrom_token, by simp⟩
  rw [values?, valuesTokens, listTokens, enclosed?_self, Option.bind_eq_bind, Option.bind_some,
    hitems]
  exact mapM_value? values

theorem valuesTokens_inj {values values' : List Value} :
    valuesTokens values = valuesTokens values' ↔ values = values' := by
  refine ⟨fun h => ?_, congrArg _⟩
  have hsame := congrArg values? h
  rw [values?_valuesTokens, values?_valuesTokens] at hsame
  exact Option.some.inj hsame

theorem keptFrom_valuesTokens (values : List Value) : KeptFrom 0 (valuesTokens values) := by
  refine keptFrom_listTokens fun item hmem => ?_
  obtain ⟨value, -, rfl⟩ := List.mem_map.1 hmem
  exact value.keptFrom_token

theorem readsTo_valuesJson (values : List Value) :
    ReadsTo (valuesJson values).toList (valuesTokens values) :=
  readsTo_compactList (Value.forall₂_readsTo values)

/-! ## Members -/

theorem member?_memberTokens (key : String) (value : List Token) :
    member? (memberTokens key value) = some (key, value) := by
  rw [memberTokens, member?, assemble_map_pieceOf, Option.map_some, String.ofList_toList]

/-- Members that were written are added under their keys, one after the other. -/
theorem Draft.addAll_memberTokens (draft : Draft) (members : List (String × List Token)) :
    draft.addAll (members.map fun member => memberTokens member.1 member.2) =
      members.foldlM (fun draft member => draft.add member.1 member.2) draft := by
  induction members generalizing draft with
  | nil => rfl
  | cons member rest ih =>
    rw [List.map_cons, addAll, member?_memberTokens, List.foldlM_cons]
    show (draft.add member.1 member.2).bind _ = (draft.add member.1 member.2).bind _
    refine congrArg _ (funext fun next => ?_)
    exact ih next

/-- The members of a puzzle file, in the order in which they are written. -/
def members (file : PuzzleFile) : List (String × List Token) :=
  [("name", [.string (file.name.toList.map pieceOf)]),
   ("description", [.string (file.description.toList.map pieceOf)]),
   ("memory_size", [.integer false file.memorySize.toNat]),
   ("input", valuesTokens file.input),
   ("expected", valuesTokens file.expected)]

/-- The tokens of a puzzle file. -/
def tokens (file : PuzzleFile) : List Token :=
  objectTokens file.members

theorem readsTo_json (file : PuzzleFile) : ReadsTo file.json.toList file.tokens := by
  refine readsTo_compactObject ?_
  exact .cons ⟨rfl, readsTo_quoted _⟩ (.cons ⟨rfl, readsTo_quoted _⟩ (.cons ⟨rfl, readsTo_decimal _⟩
    (.cons ⟨rfl, readsTo_valuesJson _⟩ (.cons ⟨rfl, readsTo_valuesJson _⟩ .nil))))

theorem ofMembers?_members (file : PuzzleFile) :
    ofMembers? (file.members.map fun member => memberTokens member.1 member.2) = some file := by
  rw [ofMembers?, Draft.addAll_memberTokens]
  simp [members, Draft.add, fill, text?_string, size?_integer, values?_valuesTokens, Draft.finish]

theorem keptFrom_members (file : PuzzleFile) : ∀ member ∈ file.members, KeptFrom 0 member.2 := by
  intro member hmem
  simp only [members, List.mem_cons, List.not_mem_nil, or_false] at hmem
  rcases hmem with rfl | rfl | rfl | rfl | rfl
  · exact keptFrom_string _
  · exact keptFrom_string _
  · exact keptFrom_integer _ _
  · exact keptFrom_valuesTokens file.input
  · exact keptFrom_valuesTokens file.expected

theorem ofTokens?_tokens (file : PuzzleFile) : ofTokens? file.tokens = some file := by
  rw [ofTokens?, tokens, objectTokens, enclosed?_self]
  show ofMembers? (items _) = some file
  rw [items_memberTokens file.keptFrom_members]
  exact ofMembers?_members file

/-! ## The whole file -/

/-- However a text is laid out, if its tokens are those of a puzzle file it is read as that file. -/
theorem ofJson?_of_readsTo {text : String} {file : PuzzleFile}
    (h : ReadsTo text.toList file.tokens) : ofJson? text = some file := by
  rw [ofJson?, h.tokens, Option.bind_eq_bind, Option.bind_some]
  exact ofTokens?_tokens file

/-- Every puzzle file that is written is read back as itself. -/
theorem ofJson?_json (file : PuzzleFile) : ofJson? file.json = some file :=
  ofJson?_of_readsTo file.readsTo_json

-- Values carry no tag: only the quotes tell the character `1` from the number.
example : json ⟨"a\"b", "", 2, [.number Number.one, .character '1', .empty], []⟩ =
    "\x7b\"name\":\"a\\\"b\",\"description\":\"\",\"memory_size\":2," ++
      "\"input\":[1,\"1\",null],\"expected\":[]\x7d" := by decide

end Clerk.PuzzleFile
