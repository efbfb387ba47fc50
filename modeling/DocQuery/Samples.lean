import DocQuery.Compare

namespace DocQuery.Samples

def user (id : Int) (name : String) (age : Int) (city : String) : Value :=
  .doc [("id", .int id), ("name", .text name), ("age", .int age), ("city", .text city)]

def users : List Value :=
  [user 1 "Alice" 25 "Delhi", user 2 "Bob" 30 "Mumbai", user 3 "Charlie" 28 "Bangalore"]

def order (id customer amount : Int) : Value :=
  .doc [("order_id", .int id), ("user_id", .int customer), ("amount", .int amount)]

def orders : List Value := [order 101 1 500, order 102 2 300, order 103 1 700, order 104 3 200]

/-- Replaces the collections by the samples. -/
def setup : Report :=
  .call [.drop "users", .drop "orders", .insert "users" (.list users), .insert "orders" (.list orders)]
    ++ .print "MongoDB collections created and seeded ✅\n"

end DocQuery.Samples
