import BranchSync.Branch
import BranchSync.Text.Quoted

/-!
# Principals and authorization

A session acts for a principal: the owner of an account, who may touch every branch of it,
or a delegated party with a set of grants, who may touch exactly the granted branches. A set
of grants is kept in increasing order without repetition, so equal sets are equal values.
-/

namespace BranchSync

namespace TokenSet

/-- Put a token in its place in an increasing list, unless it is there. -/
def place (token : AccessToken) : List AccessToken → List AccessToken
  | [] => [token]
  | t :: rest =>
    if token.text < t.text then token :: t :: rest
    else if token = t then t :: rest
    else t :: place token rest

/-- Strictly increasing by text. -/
abbrev Increasing (tokens : List AccessToken) : Prop :=
  tokens.Pairwise fun a b => a.text < b.text

/-- Placing adds exactly the token. -/
theorem mem_place {token t : AccessToken} {tokens : List AccessToken} :
    t ∈ place token tokens ↔ t = token ∨ t ∈ tokens := by
  induction tokens with
  | nil => simp [place]
  | cons a rest ih =>
    by_cases h₁ : token.text < a.text
    · simp [place, h₁]
    · by_cases h₂ : token = a
      · subst h₂
        simp only [place, if_neg h₁, if_true, List.mem_cons]
        constructor
        · exact .inr
        · intro hmem
          rcases hmem with h | h
          · exact .inl h
          · exact h
      · simp only [place, if_neg h₁, if_neg h₂, List.mem_cons, ih]
        constructor
        · intro hmem
          rcases hmem with h | h | h
          · exact .inr (.inl h)
          · exact .inl h
          · exact .inr (.inr h)
        · intro hmem
          rcases hmem with h | h | h
          · exact .inr (.inl h)
          · exact .inl h
          · exact .inr (.inr h)

/-- Placing keeps the order strict. -/
theorem increasing_place {token : AccessToken} {tokens : List AccessToken}
    (h : Increasing tokens) : Increasing (place token tokens) := by
  induction tokens with
  | nil => simp [place]
  | cons a rest ih =>
    obtain ⟨hhead, hrest⟩ := List.pairwise_cons.1 h
    by_cases h₁ : token.text < a.text
    · simp only [place, if_pos h₁]
      refine List.pairwise_cons.2 ⟨?_, h⟩
      intro b hb
      rcases List.mem_cons.1 hb with rfl | hb
      · exact h₁
      · exact String.lt_trans h₁ (hhead b hb)
    · by_cases h₂ : token = a
      · subst h₂
        simpa [place, h₁] using h
      · simp only [place, if_neg h₁, if_neg h₂]
        refine List.pairwise_cons.2 ⟨?_, ih hrest⟩
        intro b hb
        rcases mem_place.1 hb with rfl | hb
        · have hne : b.text ≠ a.text := fun he => h₂ (by cases b; cases a; simp_all)
          exact String.not_le.1 fun hle => hne (String.le_antisymm hle (String.not_lt.1 h₁))
        · exact hhead b hb

end TokenSet

/-- A finite set of grants. -/
structure TokenSet where
  tokens : List AccessToken
  increasing : TokenSet.Increasing tokens
  deriving DecidableEq

namespace TokenSet

/-- The set without grants. -/
def empty : TokenSet := ⟨[], List.Pairwise.nil⟩

/-- The set with one more grant. -/
def insert (s : TokenSet) (token : AccessToken) : TokenSet :=
  ⟨place token s.tokens, increasing_place s.increasing⟩

/-- The set of the listed grants; order and repetition do not matter. -/
def ofList (tokens : List AccessToken) : TokenSet :=
  tokens.foldl insert empty

/-- The set of listed grants, added to a set, holds what either holds. -/
theorem mem_foldl_insert {t : AccessToken} {tokens : List AccessToken} {s : TokenSet} :
    t ∈ (tokens.foldl insert s).tokens ↔ t ∈ s.tokens ∨ t ∈ tokens := by
  induction tokens generalizing s with
  | nil => simp
  | cons a rest ih =>
    rw [List.foldl_cons, ih, List.mem_cons]
    have h : t ∈ (s.insert a).tokens ↔ t = a ∨ t ∈ s.tokens := mem_place
    rw [h]
    constructor
    · intro hmem
      rcases hmem with (h | h) | h
      · exact .inr (.inl h)
      · exact .inl h
      · exact .inr (.inr h)
    · intro hmem
      rcases hmem with h | h | h
      · exact .inl (.inr h)
      · exact .inl (.inl h)
      · exact .inr h

/-- A set holds exactly the grants it was listed with. -/
theorem mem_ofList {t : AccessToken} {tokens : List AccessToken} :
    t ∈ (ofList tokens).tokens ↔ t ∈ tokens := by
  simp [ofList, mem_foldl_insert, empty]

/-- Whether a grant is in the set. -/
def contains (s : TokenSet) (token : AccessToken) : Bool :=
  decide (token ∈ s.tokens)

/-- The number of distinct grants. -/
def size (s : TokenSet) : Nat := s.tokens.length

end TokenSet

/-- The acting party of a session. -/
inductive Principal where
  /-- The owner of an account. -/
  | account (user : String)
  /-- A party that acts with grants for single branches. -/
  | delegated (grants : TokenSet)
  deriving DecidableEq

namespace Principal

/-- Whether the principal owns the account of `user`. -/
def owns : Principal → String → Bool
  | .account owner, user => owner == user
  | .delegated _, _ => false

/-- Whether the principal holds a grant; an owner holds none. -/
def holds : Principal → AccessToken → Bool
  | .account _, _ => false
  | .delegated grants, token => grants.contains token

/-- Whether the principal may read and write a branch: by owning the account, or by a grant. -/
def canAccess (principal : Principal) (target : BranchRef) : Bool :=
  principal.owns target.user || principal.holds target.accessToken

/-- The short form by which messages name a principal. -/
def label : Principal → String
  | .account user => s!"account:{user}"
  | .delegated grants => s!"delegated[{grants.size}]"

/-- A principal as diagnostics show it. -/
def describe : Principal → String
  | .account user => "Account \x7b user: " ++ Text.Quoted.text user ++ " \x7d"
  | .delegated grants =>
    let shown := grants.tokens.map fun t => "AccessToken(" ++ Text.Quoted.text t.text ++ ")"
    "Delegated \x7b grants: \x7b" ++ String.intercalate ", " shown ++ "\x7d \x7d"

end Principal

end BranchSync
