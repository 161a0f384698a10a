/-!
# Topic names and topic filters

A topic name is cut into levels at every `/`. A filter is cut in the same way, and its levels may
be wildcards: `+` stands for any one level and `#`, as the last level, for the level above it and
everything below. Names that begin with `$` are system topics: no wildcard reaches them, and they
are delivered only to filters that spell out their first level.

Every function is stated on lists of characters; the versions on strings read the list off the
string.
-/

namespace BrokerTopology

/-! ## Levels -/

/-- The levels of a name: the pieces between the slashes, of which there is always at least one. -/
def levels : List Char → List (List Char)
  | [] => [[]]
  | c :: cs =>
    if c = '/' then [] :: levels cs
    else match levels cs with
      | [] => [[c]]
      | l :: ls => (c :: l) :: ls

/-- The part of a name before its first slash, and the part after it if there is a slash. -/
def splitRoot : List Char → List Char × Option (List Char)
  | [] => ([], none)
  | c :: cs =>
    if c = '/' then ([], some cs)
    else ((c :: (splitRoot cs).1), (splitRoot cs).2)

/-- A name has at least one level. -/
theorem levels_ne_nil (cs : List Char) : levels cs ≠ [] := by
  cases cs with
  | nil => simp [levels]
  | cons c cs =>
    unfold levels
    split
    · simp
    · split <;> simp

/-- The levels of a name, with slashes between them, are the name. -/
theorem intercalate_levels (cs : List Char) : ['/'].intercalate (levels cs) = cs := by
  induction cs with
  | nil => rfl
  | cons c cs ih =>
    unfold levels
    split
    · rename_i slash
      cases h : levels cs with
      | nil => exact absurd h (levels_ne_nil cs)
      | cons l ls =>
        rw [h] at ih
        rw [List.intercalate_cons_cons, ih, slash]
        rfl
    · cases h : levels cs with
      | nil => exact absurd h (levels_ne_nil cs)
      | cons l ls =>
        rw [h] at ih
        cases ls with
        | nil => simpa using ih
        | cons m ms => simpa [List.intercalate_cons_cons] using ih

/-- No level holds a slash. -/
theorem slash_not_mem_of_mem_levels {cs l : List Char} (h : l ∈ levels cs) : '/' ∉ l := by
  induction cs generalizing l with
  | nil => simp_all [levels]
  | cons c cs ih =>
    unfold levels at h
    split at h
    · rcases List.mem_cons.mp h with rfl | h
      · exact List.not_mem_nil
      · exact ih h
    · rename_i plain
      split at h
      · rename_i empty
        exact absurd empty (levels_ne_nil cs)
      · rename_i m ms rest
        rcases List.mem_cons.mp h with rfl | h
        · have := ih (rest ▸ List.mem_cons_self : m ∈ levels cs)
          simp_all [Ne.symm]
        · exact ih (rest ▸ List.mem_cons_of_mem m h)

namespace Filter

/-! ## Matching -/

/-- What one level of a filter asks of a topic. -/
inductive Pattern where
  /-- This level and no other. -/
  | exactly (level : List Char)
  /-- Any one level. -/
  | anyLevel
  /-- The level above and everything below. -/
  | anyBelow
  deriving DecidableEq, Repr

/-- `+` and `#` are wildcards only where they are a whole level. -/
def Pattern.ofLevel (level : List Char) : Pattern :=
  if level = ['#'] then .anyBelow
  else if level = ['+'] then .anyLevel
  else .exactly level

/-- Whether the levels of a filter match the levels of a topic. A `#` that is not the last level
matches nothing. -/
def matchLevels : List Pattern → List (List Char) → Bool
  | .anyBelow :: ps, _ => ps.isEmpty
  | .anyLevel :: ps, _ :: ts => matchLevels ps ts
  | .exactly l :: ps, t :: ts => l == t && matchLevels ps ts
  | [], [] => true
  | _, _ => false

/-- Whether a filter matches an ordinary topic. System topics and empty texts match nothing. -/
def coversChars (filter topic : List Char) : Bool :=
  topic.head? != some '$' && !filter.isEmpty && !topic.isEmpty &&
    matchLevels ((levels filter).map Pattern.ofLevel) (levels topic)

/-- Whether a message on a topic is delivered to a subscription on a filter. Ordinary topics follow
the wildcard rules. A system topic must agree with the filter on its first level; what follows the
first slash is then equal, or matched by the wildcard rules on its own. -/
def routesChars (filter topic : List Char) : Bool :=
  if topic.head? = some '$' then
    match splitRoot filter, splitRoot topic with
    | (fr, some f), (tr, some t) => fr == tr && (f == t || coversChars f t)
    | _, _ => filter == topic
  else coversChars filter topic

/-! ## Well-formed filters and names -/

/-- A level that is not a wildcard holds no wildcard character. -/
def isPlain (level : List Char) : Bool :=
  !level.contains '#' && !level.contains '+'

/-- Whether a list of levels is usable as a filter: `#` only at the end, and wildcards never mixed
with other characters. -/
def validLevels : List (List Char) → Bool
  | [] => true
  | l :: ls =>
    (if l = ['#'] then ls.isEmpty else if l = ['+'] then true else isPlain l) && validLevels ls

/-- Whether a text is usable as a filter. -/
def isValidChars (filter : List Char) : Bool :=
  !filter.isEmpty && validLevels (levels filter)

/-- `coversChars` on strings. -/
def covers (filter topic : String) : Bool :=
  coversChars filter.toList topic.toList

/-- `routesChars` on strings. -/
def routes (filter topic : String) : Bool :=
  routesChars filter.toList topic.toList

/-- `isValidChars` on strings. -/
def isValid (filter : String) : Bool :=
  isValidChars filter.toList

end Filter

namespace TopicName

/-- Whether a text names a topic: it is not empty and holds no wildcard character. -/
def isValid (name : String) : Bool :=
  !name.toList.isEmpty && Filter.isPlain name.toList

/-- Whether a name is a system topic. -/
def isSystem (name : String) : Bool :=
  name.toList.head? == some '$'

end TopicName

end BrokerTopology
