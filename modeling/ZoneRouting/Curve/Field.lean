namespace ZoneRouting.Curve

def prime : Nat := 57896044618658097711785492504343953926634992332820282019728792003956564819949

def topBit : Nat := 1 <<< 255

def add (a b : Nat) : Nat :=
  let sum := a + b
  if sum < prime then sum else sum - prime

def sub (a b : Nat) : Nat := if b ≤ a then a - b else a + prime - b

def mul (a b : Nat) : Nat := a * b % prime

def square : (n : Nat) → Nat → Nat
  | 0, a => a
  | n + 1, a => square n (mul a a)

-- The power of an element whose exponent is written as 250 ones. Ones are put behind ones by
-- squaring.
def ones250 (a : Nat) : Nat :=
  let ones2 := mul (square 1 a) a
  let ones4 := mul (square 2 ones2) ones2
  let ones5 := mul (square 1 ones4) a
  let ones10 := mul (square 5 ones5) ones5
  let ones20 := mul (square 10 ones10) ones10
  let ones40 := mul (square 20 ones20) ones20
  let ones50 := mul (square 10 ones40) ones10
  let ones100 := mul (square 50 ones50) ones50
  let ones200 := mul (square 100 ones100) ones100
  mul (square 50 ones200) ones50

-- The inverse of an element, which is its power with exponent 2²⁵⁵ − 21; zero has zero for an
-- inverse.
def inverse (a : Nat) : Nat := mul (square 5 (ones250 a)) (mul (square 3 a) (mul (square 1 a) a))

def rootPower (a : Nat) : Nat := mul (square 2 (ones250 a)) a

end ZoneRouting.Curve
