import SqlTree.Tree

/-!
# Building a query clause by clause

A query starts with its body. Named queries and orderings add up in the order in which they come; of
limits and offsets the last one wins. Building never fails.
-/

namespace SqlTree

/-- `QueryBuilder`: a query in the making, its `ast`. -/
structure QueryBuilder where
  query : Query

namespace QueryBuilder

/-- `QueryBuilder::new`: a query that is nothing but a body. -/
def ofBody (body : Body) : QueryBuilder := ⟨.ofBody body⟩

/-- `QueryBuilder::with`: adds a named query to the `WITH` clause. -/
def named (b : QueryBuilder) (name : Ident) (query : Query) : QueryBuilder :=
  ⟨{ b.query with ctes := b.query.ctes ++ [⟨name, query⟩] }⟩

/-- `QueryBuilder::order_by`: adds to the `ORDER BY` clause. -/
def orderBy (b : QueryBuilder) (expr : Expr) (direction : Option Direction) : QueryBuilder :=
  ⟨{ b.query with orderBy := b.query.orderBy ++ [⟨expr, direction⟩] }⟩

/-- `QueryBuilder::limit`: sets the limit. -/
def limit (b : QueryBuilder) (limit : Expr) : QueryBuilder := ⟨{ b.query with limit := some limit }⟩

/-- `QueryBuilder::offset`: sets the offset. -/
def offset (b : QueryBuilder) (offset : Expr) : QueryBuilder :=
  ⟨{ b.query with offset := some offset }⟩

/-- `QueryBuilder::build` -/
def build (b : QueryBuilder) : Query := b.query

end QueryBuilder

end SqlTree
