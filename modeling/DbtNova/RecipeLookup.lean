import DbtNova.Error
import DbtNova.PathIndex
import DbtNova.Text
import DbtNova.UnixPath

/-!
# Finding a recipe by id

`find_recipe` of `tools/recipes.rs` over the recipes of a manifest. The Unicode case mapping
of the standard library is a parameter.
-/
namespace DbtNova.RecipeLookup
open Text

structure RecipeRecord where
  id : String
  path : String
  deriving DecidableEq

section Lookup
variable (toLowercase : String → String)

def normalizeRecipeId (recipeId : String) : String :=
  let relative := PathIndex.trimDotSlash (trim recipeId).toList
  let slashed := relative.map fun c => if c = '\\' then '/' else c
  toLowercase (String.ofList (PathIndex.trimEndSlash slashed))

/-- Whether a component of the path is `..` or the root. -/
def hasTraversal (normalized : String) : Bool :=
  let relative := UnixPath.ofText normalized.toList
  relative.isAbsolute || relative.steps.contains .parent

def recipeIdMatches (candidateId searchId : String) : Bool :=
  if searchId = "" then false
  else candidateId == searchId || ('/' :: searchId.toList).isSuffixOf candidateId.toList

def discoverRecipes (recipes : List RecipeRecord) : List RecipeRecord :=
  recipes.insertionSort fun a b => a.id ≤ b.id

def findRecipe (recipes : List RecipeRecord) (recipeId : String) : Result RecipeRecord :=
  let normalized := normalizeRecipeId toLowercase recipeId
  if normalized = "" then .error (.invalidParams "recipe_id cannot be empty")
  else if hasTraversal normalized then
    .error (.invalidParams s!"Invalid recipe_id '{recipeId}': path traversal is not allowed")
  else
    match (discoverRecipes recipes).find? fun candidate =>
        recipeIdMatches (toLowercase candidate.id) normalized with
    | some candidate => .ok candidate
    | none => .error (.invalidParams s!"Recipe not found: {recipeId}")

/-- A recipe whose id ends with the request and comes before `id`. -/
def Shadowed (recipes : List RecipeRecord) (normalized id : String) : Prop :=
  ∃ other ∈ recipes, other.id < id ∧
    '/' :: normalized.toList <:+ (toLowercase other.id).toList

variable {toLowercase} {recipes : List RecipeRecord} {recipe : RecipeRecord}
  {normalized : String}

theorem recipeIdMatches_iff {candidateId : String} (h : normalized ≠ "") :
    recipeIdMatches candidateId normalized = true ↔
      candidateId = normalized ∨ '/' :: normalized.toList <:+ candidateId.toList := by
  unfold recipeIdMatches
  rw [if_neg h, Bool.or_eq_true, beq_iff_eq, List.isSuffixOf_iff_suffix]

theorem discoverRecipes_sorted :
    (discoverRecipes recipes).Pairwise fun a b => a.id ≤ b.id :=
  List.pairwise_insertionSort _ _

/-- A search in the order of a key finds the least key among those that match. -/
theorem le_of_find_sorted {α β : Type*} [LinearOrder β] {key : α → β} {p : α → Bool} {xs : List α}
    {found other : α} (hsorted : xs.Pairwise fun a b => key a ≤ key b)
    (hfind : xs.find? p = some found) (hother : other ∈ xs) (hp : p other = true) :
    key found ≤ key other := by
  obtain ⟨-, before, after, hsplit, hnone⟩ := List.find?_eq_some_iff_append.mp hfind
  rw [hsplit, List.mem_append, List.mem_cons] at hother
  rcases hother with hbefore | heq | hafter
  · have hno := hnone other hbefore
    rw [hp] at hno
    contradiction
  · rw [heq]
  · rw [hsplit] at hsorted
    exact (List.pairwise_cons.mp (List.pairwise_append.mp hsorted).2.1).1 other hafter

theorem find_sorted_iff (hmem : recipe ∈ recipes) (hexact : toLowercase recipe.id = normalized)
    (honly : ∀ other ∈ recipes, toLowercase other.id = normalized → other = recipe)
    (hnonempty : normalized ≠ "") :
    (discoverRecipes recipes).find? (fun candidate =>
        recipeIdMatches (toLowercase candidate.id) normalized) = some recipe ↔
      ¬ Shadowed toLowercase recipes normalized recipe.id := by
  have hin : ∀ {other}, other ∈ discoverRecipes recipes ↔ other ∈ recipes :=
    (List.perm_insertionSort _ recipes).mem_iff
  have hmatch : recipeIdMatches (toLowercase recipe.id) normalized = true :=
    (recipeIdMatches_iff hnonempty).mpr (Or.inl hexact)
  constructor
  · rintro hfind ⟨other, hother, hlt, hsuffix⟩
    have hle : recipe.id ≤ other.id := le_of_find_sorted discoverRecipes_sorted hfind
      (hin.mpr hother) ((recipeIdMatches_iff hnonempty).mpr (Or.inr hsuffix))
    exact absurd hlt (not_lt.mpr hle)
  · intro hclear
    cases hfind : (discoverRecipes recipes).find? fun candidate =>
        recipeIdMatches (toLowercase candidate.id) normalized with
    | none =>
        have hno := List.find?_eq_none.mp hfind recipe (hin.mpr hmem)
        exact absurd hmatch hno
    | some found =>
        have hfound : found ∈ recipes := hin.mp (List.mem_of_find?_eq_some hfind)
        have hle : found.id ≤ recipe.id :=
          le_of_find_sorted discoverRecipes_sorted hfind (hin.mpr hmem) hmatch
        have hmatches : recipeIdMatches (toLowercase found.id) normalized = true := by
          have hsome := List.find?_some hfind
          exact hsome
        congr 1
        cases (recipeIdMatches_iff hnonempty).mp hmatches with
        | inl hsame => exact honly found hfound hsame
        | inr hsuffix =>
            have hge : recipe.id ≤ found.id :=
              not_lt.mp (fun hlt => hclear ⟨found, hfound, hlt, hsuffix⟩)
            -- the ids are equal, and the request names one recipe only
            apply honly found hfound
            rw [le_antisymm hle hge, hexact]

end Lookup

/-- A request for the id of one recipe finds it exactly when the request is a relative path
without `..` and no recipe in front of it has an id that ends with the request. -/
theorem findRecipe_exact_iff (toLowercase : String → String) (recipes : List RecipeRecord)
    (recipeId : String) (recipe : RecipeRecord) (hmem : recipe ∈ recipes)
    (hexact : toLowercase recipe.id = normalizeRecipeId toLowercase recipeId)
    (honly : ∀ other ∈ recipes,
      toLowercase other.id = normalizeRecipeId toLowercase recipeId → other = recipe) :
    findRecipe toLowercase recipes recipeId = .ok recipe ↔
      toLowercase recipe.id ≠ "" ∧ hasTraversal (toLowercase recipe.id) = false ∧
        ¬ Shadowed toLowercase recipes (toLowercase recipe.id) recipe.id := by
  rw [hexact]
  unfold findRecipe
  dsimp only
  by_cases hempty : normalizeRecipeId toLowercase recipeId = ""
  · rw [if_pos hempty]
    exact iff_of_false (by simp) (fun h => h.1 hempty)
  rw [if_neg hempty]
  cases htraversal : hasTraversal (normalizeRecipeId toLowercase recipeId) with
  | true =>
      rw [if_pos rfl]
      exact iff_of_false (by simp) (fun h => Bool.noConfusion h.2.1)
  | false =>
      rw [if_neg Bool.false_ne_true, ← find_sorted_iff hmem hexact honly hempty]
      cases (discoverRecipes recipes).find? fun candidate =>
          recipeIdMatches (toLowercase candidate.id)
            (normalizeRecipeId toLowercase recipeId) with
      | none => simp
      | some found => simp [hempty]

def ordersRecipe : RecipeRecord := ⟨"orders", "analyses/recipes/orders"⟩

/-- A recipe in a folder, whose id comes first. -/
def nestedOrders : RecipeRecord := ⟨"a/orders", "analyses/recipes/a/orders"⟩

theorem findRecipe_exact_behind :
    findRecipe toAsciiLowercase [ordersRecipe, ⟨"z/orders", "analyses/recipes/z/orders"⟩]
        " Orders/ " = .ok ordersRecipe ↔
      toAsciiLowercase ordersRecipe.id ≠ "" ∧
        hasTraversal (toAsciiLowercase ordersRecipe.id) = false ∧
        ¬ Shadowed toAsciiLowercase
          [ordersRecipe, ⟨"z/orders", "analyses/recipes/z/orders"⟩]
          (toAsciiLowercase ordersRecipe.id) ordersRecipe.id :=
  findRecipe_exact_iff toAsciiLowercase _ _ ordersRecipe (by decide) (by decide)
    (by decide)

theorem findRecipe_shadowed :
    toAsciiLowercase ordersRecipe.id = normalizeRecipeId toAsciiLowercase "orders" ∧
      (∀ other ∈ [ordersRecipe, nestedOrders],
        toAsciiLowercase other.id = normalizeRecipeId toAsciiLowercase "orders" →
          other = ordersRecipe) ∧
      (findRecipe toAsciiLowercase [ordersRecipe, nestedOrders] "orders").toOption =
        some nestedOrders := by
  decide

end DbtNova.RecipeLookup
