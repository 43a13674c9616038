/-! The lists of class names that a gate starts with. Each entry stands for all the names that it
starts. -/
namespace Switchboard.Gate

/-- Plain values and collections, and the classes of this library. -/
def bundledAllow : List String :=
  ["java.lang.Boolean", "java.lang.Byte", "java.lang.Character", "java.lang.Double",
    "java.lang.Float", "java.lang.Integer", "java.lang.Long", "java.lang.Number",
    "java.lang.Short", "java.lang.String", "java.lang.Void", "java.math.", "java.time.",
    "java.util.", "spark.rpc."]

/-- Classes that are known to be misused when they are made from data. -/
def bundledDeny : List String :=
  ["bsh.", "ch.qos.logback.core.db.", "clojure.", "com.alibaba.fastjson.JSONObject",
    "com.mchange.v2.c3p0.", "com.sun.jndi.", "com.sun.rowset.JdbcRowSetImpl",
    "com.sun.org.apache.bcel.internal.util.ClassLoader",
    "com.sun.org.apache.xalan.internal.xsltc.trax.", "java.lang.Class",
    "java.lang.ProcessBuilder", "java.lang.Runtime", "java.lang.Thread", "java.lang.reflect.",
    "java.net.Socket", "java.net.URLClassLoader", "java.rmi.", "java.security.SignedObject",
    "javassist.", "javax.imageio.", "javax.management.", "javax.naming.", "javax.script.",
    "javax.sound.sampled.", "javax.xml.transform.Templates", "jdk.nashorn.", "net.sf.json.",
    "org.apache.commons.beanutils.", "org.apache.commons.collections.functors.",
    "org.apache.commons.collections4.functors.", "org.apache.ibatis.", "org.apache.log4j.",
    "org.apache.tomcat.dbcp.", "org.apache.xalan.", "org.codehaus.groovy.runtime.",
    "org.hibernate.", "org.jboss.", "org.mozilla.javascript.", "org.python.core.",
    "org.springframework.aop.", "org.springframework.beans.factory.", "org.springframework.jndi.",
    "org.springframework.transaction.", "sun.rmi."]

end Switchboard.Gate
