import MathQuery.Order.Sorting

/-!
# Polynomials

Polynomials in any number of variables with rational coefficients.  A monomial
lists the variables that occur in it with their exponents, in the order of the
names.  A polynomial lists monomials with their coefficients, in the order of the
monomials.  No operation leaves a coefficient or an exponent of zero behind, so
equal polynomials are equal lists.

Exponents stay below `exponentLimit`.  Products are refused when they would pass
it, and when they need too much work or grow too large.
-/

namespace MathQuery

/-- Variables with their exponents, ascending by name.  The empty monomial is the
constant one. -/
abbrev Monomial := List (String × Nat)

/-- No exponent reaches this. -/
def exponentLimit : Nat := 4294967296

namespace Monomial

/-- The order of the factors of monomials: by name, then by exponent. -/
def compareFactor : String × Nat → String × Nat → Ordering :=
  compareLex (compareOn Prod.fst) (compareOn Prod.snd)

/-- The order of monomials: factor by factor, a shorter one before the longer ones
it begins. -/
def order : Monomial → Monomial → Ordering
  | [], [] => .eq
  | [], _ :: _ => .lt
  | _ :: _, [] => .gt
  | (x, d) :: m, (y, e) :: n =>
    if x = y then
      match compare d e with
      | .lt => .lt
      | .eq => order m n
      | .gt => .gt
    else compare x y

/-- The order of monomials is the lexicographic one. -/
theorem order_eq_compareLex (m n : Monomial) :
    order m n = List.compareLex compareFactor m n := by
  induction m generalizing n with
  | nil => cases n <;> simp [order, List.compareLex]
  | cons s m ih =>
    obtain ⟨x, d⟩ := s
    cases n with
    | nil => simp [order, List.compareLex]
    | cons t n =>
      obtain ⟨y, e⟩ := t
      rw [order, List.compareLex_cons_cons, ← ih, compareFactor]
      by_cases h : x = y
      · subst h
        simp only [if_pos, compareLex, compareOn, Std.ReflOrd.compare_self]
        cases compare d e <;> rfl
      · have hne : compare x y ≠ .eq := fun heq => h (Std.LawfulEqOrd.eq_of_compare heq)
        simp only [if_neg h, compareLex, compareOn]
        cases hxy : compare x y with
        | eq => exact absurd hxy hne
        | lt => rfl
        | gt => rfl

/-- The exponent of a variable, zero if it does not occur. -/
def exponent (m : Monomial) (x : String) : Nat :=
  match m.find? (·.1 == x) with
  | some (_, e) => e
  | none => 0

/-- The sum of all exponents. -/
def degree : Monomial → Nat
  | [] => 0
  | (_, e) :: m => e + degree m

/-- Multiply by a power of one variable, unless the exponent reaches the limit. -/
def mulFactor? (x : String) (e : Nat) : Monomial → Option Monomial
  | [] => some [(x, e)]
  | (y, d) :: m =>
    match compare x y with
    | .lt => some ((x, e) :: (y, d) :: m)
    | .eq => if d + e < exponentLimit then some ((y, d + e) :: m) else none
    | .gt => (mulFactor? x e m).map ((y, d) :: ·)

/-- The product of two monomials, unless an exponent reaches the limit. -/
def mul? (m : Monomial) : Monomial → Option Monomial
  | [] => some m
  | (x, e) :: n => (m.mulFactor? x e).bind fun longer => mul? longer n

/-- Lower the exponent of a variable by one, as far as it occurs. -/
def lower (x : String) : Monomial → Monomial
  | [] => []
  | (y, d) :: m =>
    if x = y then if d = 1 then m else (y, d - 1) :: m
    else (y, d) :: lower x m

end Monomial

/-- A monomial with its coefficient. -/
abbrev PolynomialTerm := Monomial × Rat

/-- Monomials with their coefficients, ascending by monomial. -/
structure Polynomial where
  terms : List PolynomialTerm
deriving DecidableEq

namespace Polynomial

/-- The most coefficient products that one multiplication may take. -/
def productLimit : Nat := 1048576

/-- The most terms that a product may have. -/
def termLimit : Nat := 4096

/-- The polynomial zero. -/
def zero : Polynomial := ⟨[]⟩

/-- The polynomial with a single term, or zero if the coefficient is. -/
def monomial (m : Monomial) (c : Rat) : Polynomial :=
  ⟨if c = 0 then [] else [(m, c)]⟩

/-- A constant polynomial. -/
def constant (c : Rat) : Polynomial := monomial [] c

/-- A variable. -/
def var (x : String) : Polynomial := monomial [(x, 1)] 1

/-- The number of terms. -/
def size (p : Polynomial) : Nat := p.terms.length

/-- Whether a polynomial is zero. -/
def isZero (p : Polynomial) : Bool := p.terms.isEmpty

/-- The value of a polynomial that has no variables. -/
def constant? (p : Polynomial) : Option Rat :=
  match p.terms with
  | [] => some 0
  | [([], c)] => some c
  | _ => none

/-- The coefficient of a monomial, zero if it does not occur. -/
def coefficient (p : Polynomial) (m : Monomial) : Rat :=
  match p.terms.find? (·.1 == m) with
  | some (_, c) => c
  | none => 0

/-- Merge one term in front of further terms, whose own merge is `later`, with the
terms of another polynomial. -/
def mergeTerm (m : Monomial) (c : Rat) (later : List PolynomialTerm → List PolynomialTerm) :
    List PolynomialTerm → List PolynomialTerm
  | [] => (m, c) :: later []
  | (n, d) :: q =>
    match m.order n with
    | .lt => (m, c) :: later ((n, d) :: q)
    | .eq => if c + d = 0 then later q else (m, c + d) :: later q
    | .gt => (n, d) :: mergeTerm m c later q

/-- Merge ascending terms, adding coefficients of equal monomials and dropping
those that cancel. -/
def merge : List PolynomialTerm → List PolynomialTerm → List PolynomialTerm
  | [] => id
  | (m, c) :: p => mergeTerm m c (merge p)

/-- The sum of two polynomials. -/
def add (p q : Polynomial) : Polynomial := ⟨merge p.terms q.terms⟩

/-- A polynomial with all coefficients multiplied by a number. -/
def scale (factor : Rat) (p : Polynomial) : Polynomial :=
  ⟨p.terms.filterMap fun (m, c) => if c * factor = 0 then none else some (m, c * factor)⟩

/-- The negative of a polynomial. -/
def neg (p : Polynomial) : Polynomial := p.scale (-1)

/-- The difference of two polynomials. -/
def sub (p q : Polynomial) : Polynomial := p.add q.neg

/-- The sum of several polynomials. -/
def sum (ps : List Polynomial) : Polynomial := Balanced.combine add zero ps

/-- The product with a single term, unless an exponent reaches the limit. -/
def mulTerm? (m : Monomial) (c : Rat) (q : Polynomial) : Option Polynomial :=
  (q.terms.mapM fun (n, d) => (m.mul? n).map fun product => monomial product (c * d)).map sum

/-- Add the products of further terms with `q`, unless a sum grows too large. -/
def mulFrom? (q : Polynomial) (sum : Polynomial) : List PolynomialTerm → Option Polynomial
  | [] => some sum
  | (m, c) :: later =>
    match mulTerm? m c q with
    | none => none
    | some row =>
      let longer := sum.add row
      -- terms may still cancel later, but the limit holds for every partial sum
      if termLimit < longer.size then none else mulFrom? q longer later

/-- The product of two polynomials.  It is refused when it takes too many
coefficient products, when an exponent reaches the limit, or when the product of
some of the first terms with `q` has too many terms. -/
def mul? (p q : Polynomial) : Option Polynomial :=
  if productLimit < p.size * q.size then none else mulFrom? q zero p.terms

/-- Multiply `product` by the power of `base` whose exponent has the given binary
digits, lowest first. -/
def powFrom? (product base : Polynomial) : List Bool → Option Polynomial
  | [] => some product
  | bit :: bits => do
    let product ← if bit then product.mul? base else some product
    -- behind the last digit no square is needed, and none may be refused
    if bits.isEmpty then some product
    else
      let square ← base.mul? base
      powFrom? product square bits

/-- The binary digits of a number below `2 ^ fuel`, lowest first and without
leading zeros. -/
def bitsUpTo : Nat → Nat → List Bool
  | 0, _ => []
  | fuel + 1, n => if n = 0 then [] else (n % 2 == 1) :: bitsUpTo fuel (n / 2)

/-- The binary digits of a number, lowest first and without leading zeros. -/
def bits (n : Nat) : List Bool := bitsUpTo (n.log2 + 1) n

/-- A power, by squaring.  It is refused when one of the products is. -/
def pow? (p : Polynomial) (n : Nat) : Option Polynomial :=
  powFrom? (constant 1) p (bits n)

/-- The derivative of one term.  The variable leaves the monomial when its exponent
is one. -/
def derivativeTerm (x : String) : PolynomialTerm → Polynomial
  | (m, c) => if m.exponent x = 0 then zero else monomial (m.lower x) (c * m.exponent x)

/-- The partial derivative by a variable. -/
def derivative (x : String) (p : Polynomial) : Polynomial :=
  sum (p.terms.map (derivativeTerm x))

/-- Whether a term is written no later than another: by descending degree, then by
descending monomial. -/
def writtenLE (s t : PolynomialTerm) : Bool :=
  match compare t.1.degree s.1.degree with
  | .lt => true
  | .gt => false
  | .eq => (t.1.order s.1).isLE

/-- The terms in the order in which they are written. -/
def written (p : Polynomial) : List PolynomialTerm := sortBy writtenLE p.terms

end Polynomial

end MathQuery
