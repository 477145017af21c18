import ViewEngine.Text.CaseTable

/-!
Upper and lower case of a text, by the full mappings of Unicode. A character may become several,
and a capital sigma that ends a word becomes a final sigma.
-/

namespace ViewEngine.Text

def CaseRun.maps (run : CaseRun) (code : Nat) : Bool :=
  run.first ≤ code && code ≤ run.last && (code - run.first) % run.step == 0

def mapCase (expansions : List (Nat × List Nat)) (runs : List CaseRun) (c : Char) : List Char :=
  match expansions.lookup c.toNat with
  | some codes => codes.map Char.ofNat
  | none =>
    match runs.find? (·.maps c.toNat) with
    | some run => [Char.ofNat ((c.toNat : Int) + run.shift).toNat]
    | none => [c]

def inRanges (ranges : List (Nat × Nat)) (c : Char) : Bool :=
  ranges.any fun (first, last) => first ≤ c.toNat && c.toNat ≤ last

def meetsCased (characters : List Char) : Bool :=
  match characters.dropWhile (inRanges caseIgnorableRanges) with
  | [] => false
  | c :: _ => inRanges casedRanges c

def lowerFrom (before : List Char) : List Char → List Char
  | [] => []
  | c :: rest =>
    let lowered :=
      if c == 'Σ' && meetsCased before && !meetsCased rest then ['ς']
      else if c.toNat < 128 then [c.toLower]
      else mapCase lowerExpansions lowerRuns c
    lowered ++ lowerFrom (c :: before) rest

def toLower (text : String) : String :=
  String.ofList (lowerFrom [] text.toList)

def toUpper (text : String) : String :=
  String.ofList (text.toList.flatMap fun c =>
    if c.toNat < 128 then [c.toUpper] else mapCase upperExpansions upperRuns c)

def toLowerAscii (text : String) : String :=
  String.ofList (text.toList.map Char.toLower)

end ViewEngine.Text
