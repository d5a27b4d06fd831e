/-! The library that a standard session starts with, in source text. Every procedure that walks a
list calls itself in tail position only, so no list is too long for it. -/
namespace Lisplet

def prelude : String := "
(define empty?
  (lambda (xs) \"true when xs is the empty list\"
    (= xs '())))

(define evalS
  (lambda (source) \"read and evaluate a source string\"
    (eval source)))

(define foldl
  (lambda (f acc xs) \"combine acc with each element of xs from the left: (f acc x)\"
    (if (empty? xs)
        acc
        (foldl f (f acc (head xs)) (tail xs)))))

(define length
  (lambda (xs) \"number of elements in xs\"
    (foldl (lambda (n x) (++ n)) 0 xs)))

(define reverse
  (lambda (xs) \"elements of xs in reverse order\"
    (foldl (lambda (acc x) (cons x acc)) '() xs)))

(define map
  (lambda (f xs) \"apply f to every element of xs\"
    (foldl (lambda (acc x) (append (f x) acc)) '() xs)))

(define filter
  (lambda (keep? xs) \"elements of xs for which keep? holds\"
    (foldl (lambda (acc x) (if (keep? x) (append x acc) acc)) '() xs)))

(define last
  (lambda (xs) \"final element of xs\"
    (if (empty? (tail xs))
        (head xs)
        (last (tail xs)))))

(define range-into
  (lambda (acc n to) \"append the integers n, n+1, ... below to onto acc\"
    (if (< n to)
        (range-into (append n acc) (++ n) to)
        acc)))

(define range
  (lambda (from to) \"integers from `from` up to, but not including, `to`\"
    (range-into '() from to)))
"

end Lisplet
