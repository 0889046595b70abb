/-!
Dictionaries: lists of entries whose keys are strings in increasing order of code points. Inserting
keeps the order, so dictionaries with the same entries are equal. Entries in any other order are
sorted by their keys.
-/

namespace TensorIR.Dictionary

variable {α : Type}

def insert (key : String) (value : α) : List (String × α) → List (String × α)
  | [] => [(key, value)]
  | (k, v) :: entries =>
    if key < k then (key, value) :: (k, v) :: entries
    else if key = k then (key, value) :: entries
    else (k, v) :: insert key value entries

def ofList (entries : List (String × α)) : List (String × α) :=
  entries.foldl (fun dict (key, value) => insert key value dict) []

-- Entries with the same key keep their order.
def insertByKey (entry : String × α) : List (String × α) → List (String × α)
  | [] => [entry]
  | e :: entries =>
    if entry.1 ≤ e.1 then entry :: e :: entries else e :: insertByKey entry entries

def sortByKey (entries : List (String × α)) : List (String × α) :=
  entries.foldr insertByKey []

def get? (entries : List (String × α)) (key : String) : Option α :=
  (entries.find? (·.1 == key)).map Prod.snd

end TensorIR.Dictionary
