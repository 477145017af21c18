namespace ViewEngine.Text

def splitCharacters (separator : Char) : List Char → List (List Char)
  | [] => [[]]
  | c :: rest =>
    if c = separator then [] :: splitCharacters separator rest
    else
      match splitCharacters separator rest with
      | part :: parts => (c :: part) :: parts
      | [] => [[c]]

def split (separator : Char) (text : String) : List String :=
  (splitCharacters separator text.toList).map String.ofList

def splitLast? (separator : Char) (text : String) : Option (String × String) :=
  let reversed := text.toList.reverse
  match reversed.dropWhile (· != separator) with
  | [] => none
  | _ :: before =>
    some (String.ofList before.reverse, String.ofList (reversed.takeWhile (· != separator)).reverse)

end ViewEngine.Text
